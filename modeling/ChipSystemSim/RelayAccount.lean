import ChipSystemSim.RelayStreams

/-! The account of the output of the child: where each of its bytes is, in every state of
the relay, until the exit frame is sent. -/

namespace ChipSystemSim

namespace Relay

variable {cfg : Setting} {s t : State}

section Account

/-- What the worker adds to the stdout of the child. -/
def Setting.resultText (cfg : Setting) : Option Bytes :=
  match cfg.marker with
  | none => some []
  | some marker => markerText marker

def Worker.early : Worker → Bool
  | .diagnosing => true
  | .launching => true
  | .announcing => true
  | .announced => true
  | _ => false

def Worker.done : Worker → Bool
  | .marking _ => true
  | .sendingMarker _ _ => true
  | .reporting _ => true
  | _ => false

def Worker.over : Worker → Bool
  | .reported _ => true
  | .closed => true
  | _ => false

def Worker.code : Worker → Option Int
  | .gathering returnCode => some returnCode
  | .marking returnCode => some returnCode
  | .sendingMarker _ returnCode => some returnCode
  | .reporting returnCode => some returnCode
  | _ => none

/-- The bytes behind the output of the child on a channel. -/
def Worker.added (cfg : Setting) (ch : Channel) : Worker → Bytes
  | .reporting _ => if ch = .stdout then cfg.resultText.getD [] else []
  | _ => []

/-- What the coroutine knows of the result marker. -/
def Worker.marked (cfg : Setting) : Worker → Prop
  | .sendingMarker text _ => cfg.resultText = some text
  | .reporting _ => cfg.resultText.isSome = true
  | _ => True

def Forward.held : Forward → Bytes
  | .holding chunk => chunk
  | _ => []

def Forward.busy : Forward → Bool
  | .reading => true
  | .holding _ => true
  | _ => false

/-- Before the exit frame, while the connection is up: every byte of the child was sent, is
held by its task or is in its pipe. -/
structure Live (cfg : Setting) (s : State) : Prop where
  up : s.down = false
  noExit : ∀ returnCode, .exit returnCode ∉ s.sent
  open_ : s.worker.over = false
  early : s.worker.early = true → ∀ ch, s.forward ch = .notStarted
  done : s.worker.done = true → ∀ ch, s.forward ch = .finished
  code : ∀ returnCode, s.worker.code = some returnCode → s.exitCode = some returnCode
  marked : s.worker.marked cfg
  ended : ∀ ch, s.forward ch = .finished → (s.pipe ch).closed = true ∧ (s.pipe ch).unread = []
  account : ∀ ch, dataOf ch s.sent ++ (s.forward ch).held ++ (s.pipe ch).unread =
    (s.pipe ch).written ++ s.worker.added cfg ch

structure Final (cfg : Setting) (returnCode : Int) (s : State) : Prop where
  sent : ∃ front, s.sent = front ++ [.exit returnCode] ∧ ∀ other, .exit other ∉ front
  stdout : ∃ text, cfg.resultText = some text ∧
    dataOf .stdout s.sent = (s.pipe .stdout).written ++ text
  stderr : dataOf .stderr s.sent = (s.pipe .stderr).written
  closed : ∀ ch, (s.pipe ch).closed = true
  exit : s.exitCode = some returnCode
  settled : s.down = true ∨ s.worker = .reported returnCode ∧ ∀ ch, s.forward ch = .finished

def Progress (cfg : Setting) (s : State) : Prop :=
  Live cfg s ∨ (∃ returnCode, Final cfg returnCode s) ∨ s.down = true ∧
  ∀ returnCode, .exit returnCode ∉ s.sent

/-- What no step takes back. -/
structure Keeps (s t : State) : Prop where
  down : s.down = true → t.down = true ∧ t.sent = s.sent
  closed : ∀ ch, (s.pipe ch).closed = true → (t.pipe ch).closed = true ∧
    (t.pipe ch).written = (s.pipe ch).written
  exit : ∀ returnCode, s.exitCode = some returnCode → t.exitCode = some returnCode

theorem Keeps.same (hdown : t.down = s.down) (hsent : t.sent = s.sent) (hpipe : t.pipe = s.pipe)
    (hexit : t.exitCode = s.exitCode) : Keeps s t where
  down := fun h => ⟨hdown.trans h, hsent⟩
  closed := fun ch h => by
    rw [hpipe]
    exact ⟨h, rfl⟩
  exit := fun returnCode h => hexit.trans h

theorem Keeps.pipe {ch : Channel} {p : ChildPipe} (hdown : t.down = s.down)
    (hsent : t.sent = s.sent) (hpipe : t.pipe = Function.update s.pipe ch p)
    (hexit : t.exitCode = s.exitCode)
    (h : (s.pipe ch).closed = true → p.closed = true ∧ p.written = (s.pipe ch).written) :
    Keeps s t where
  down := fun h => ⟨hdown.trans h, hsent⟩
  closed := fun other hclosed => by
    rw [hpipe]
    by_cases hother : other = ch
    · subst hother
      rw [Function.update_self]
      exact h hclosed
    · rw [Function.update_of_ne hother]
      exact ⟨hclosed, rfl⟩
  exit := fun returnCode h => hexit.trans h

theorem keeps_put (s : State) (who : Sender) (m : Message) : Keeps s (s.put who m) := by
  cases hdown : s.down with
  | true =>
    rw [put_down hdown]
    exact Keeps.same rfl rfl rfl rfl
  | false =>
    rw [put_up hdown]
    refine ⟨fun h => ?_, fun ch h => ⟨h, rfl⟩, fun returnCode h => h⟩
    rw [hdown] at h
    cases h

theorem Keeps.put {who : Sender} {m : Message} (hdown : t.down = (s.put who m).down)
    (hsent : t.sent = (s.put who m).sent) (hpipe : t.pipe = (s.put who m).pipe)
    (hexit : t.exitCode = (s.put who m).exitCode) : Keeps s t := by
  have h := keeps_put s who m
  constructor
  · rw [hdown, hsent]
    exact h.down
  · rw [hpipe]
    exact h.closed
  · rw [hexit]
    exact h.exit

theorem step_keeps (h : Step cfg s t) : Keeps s t := by
  have hwrite : ∀ {ch : Channel}, (s.pipe ch).closed = false →
      ∀ {p : ChildPipe}, (s.pipe ch).closed = true →
      p.closed = true ∧ p.written = (s.pipe ch).written := by
    intro ch hopen p hclosed
    rw [hopen] at hclosed
    cases hclosed
  cases h with
  | cat _ hopen => exact .pipe rfl rfl rfl rfl (hwrite hopen)
  | writeOut _ _ hopen => exact .pipe rfl rfl rfl rfl (hwrite hopen)
  | writeErr _ _ hopen => exact .pipe rfl rfl rfl rfl (hwrite hopen)
  | close => exact .pipe rfl rfl rfl rfl fun _ => ⟨rfl, rfl⟩
  | read => exact .pipe rfl rfl rfl rfl fun hclosed => ⟨hclosed, rfl⟩
  | exit _ hrunning =>
    refine ⟨fun h => ⟨h, rfl⟩, fun ch h => ⟨h, rfl⟩, fun returnCode h => ?_⟩
    rw [hrunning] at h
    cases h
  | sendChunk => exact .put rfl rfl rfl rfl
  | sendDiagnostic => exact .put rfl rfl rfl rfl
  | sendStarted => exact .put rfl rfl rfl rfl
  | sendMarker => exact .put rfl rfl rfl rfl
  | sendExit => exact .put rfl rfl rfl rfl
  | @sendError error text =>
    have hput := keeps_put s .main (.error text)
    exact ⟨fun hdown => ⟨rfl, (hput.down hdown).2⟩, hput.closed, hput.exit⟩
  | lostForward => exact ⟨fun _ => ⟨rfl, rfl⟩, fun ch h => ⟨h, rfl⟩, fun returnCode h => h⟩
  | lostMain => exact ⟨fun _ => ⟨rfl, rfl⟩, fun ch h => ⟨h, rfl⟩, fun returnCode h => h⟩
  | finish => exact ⟨fun _ => ⟨rfl, rfl⟩, fun ch h => ⟨h, rfl⟩, fun returnCode h => h⟩
  | @readLine raw rest =>
    rcases takeLine_cases s raw with heq | heq | ⟨error, heq⟩ | ⟨data, heq⟩
    all_goals
      rw [heq]
      exact .same rfl rfl rfl rfl
  | _ => exact .same rfl rfl rfl rfl

/-- Between the exit frame and the end of the connection nothing is sent. -/
theorem step_reported {returnCode : Int} (hreported : s.worker = .reported returnCode)
    (hfinished : ∀ ch, s.forward ch = .finished) (hstep : Step cfg s t) :
    t.sent = s.sent ∧ (t.down = true ∨ t.worker = .reported returnCode ∧
      ∀ ch, t.forward ch = .finished) := by
  have hworker : ∀ {w}, s.worker = w → Worker.reported returnCode = w :=
    fun h => hreported.symm.trans h
  have htask : ∀ {ch f}, s.forward ch = f → Forward.finished = f :=
    fun h => (hfinished _).symm.trans h
  cases hstep with
  | read h => cases htask h
  | endOfStream h => cases htask h
  | sendChunk h => cases htask h
  | readFails h => cases htask h
  | lostForward => exact ⟨rfl, Or.inl rfl⟩
  | lostMain => exact ⟨rfl, Or.inl rfl⟩
  | finish => exact ⟨rfl, Or.inl rfl⟩
  | sendDiagnostic h => cases hworker h
  | launchRaises h => cases hworker h
  | launch h => cases hworker h
  | sendStarted h => cases hworker h
  | attach h => cases hworker h
  | readLine h => cases hworker h
  | readRaises h => cases hworker h
  | stdinDrained h => cases hworker h
  | stdinBroken h => cases hworker h
  | noticeExit h =>
    rcases h with h | h
    · cases hworker h
    · cases hworker h
  | gather h => cases hworker h
  | gatherRaises h => cases hworker h
  | noMarker h => cases hworker h
  | readMarker h => cases hworker h
  | markerRaises h => cases hworker h
  | sendMarker h => cases hworker h
  | sendExit h => cases hworker h
  | sendError h => cases hworker h
  | _ => exact ⟨rfl, Or.inr ⟨hreported, hfinished⟩⟩

theorem Final.step {returnCode : Int} (h : Final cfg returnCode s) (hstep : Step cfg s t) :
    Final cfg returnCode t := by
  have hkeeps := step_keeps hstep
  have hsent : t.sent = s.sent ∧
      (t.down = true ∨ t.worker = .reported returnCode ∧ ∀ ch, t.forward ch = .finished) := by
    rcases h.settled with hdown | ⟨hreported, hfinished⟩
    · exact ⟨(hkeeps.down hdown).2, Or.inl (hkeeps.down hdown).1⟩
    · exact step_reported hreported hfinished hstep
  have hpipe := fun ch => hkeeps.closed ch (h.closed ch)
  constructor
  · rw [hsent.1]
    exact h.sent
  · rw [hsent.1, (hpipe .stdout).2]
    exact h.stdout
  · rw [hsent.1, (hpipe .stderr).2]
    exact h.stderr
  · exact fun ch => (hpipe ch).1
  · exact hkeeps.exit returnCode h.exit
  · exact hsent.2

/-- The fields that the account reads, the coroutine apart. -/
def State.view (s : State) : Bool × List Message × (Channel → Forward) × (Channel → ChildPipe) ×
    Option Int :=
  (s.down, s.sent, s.forward, s.pipe, s.exitCode)

/-- A step of the coroutine alone. -/
theorem Live.move (h : Live cfg s) (hview : t.view = s.view) (hover : t.worker.over = false)
    (hearly : t.worker.early = true → s.worker.early = true)
    (hdone : t.worker.done = true → ∀ ch, s.forward ch = .finished)
    (hcode : ∀ returnCode, t.worker.code = some returnCode → s.exitCode = some returnCode)
    (hmarked : t.worker.marked cfg) (hadded : ∀ ch, t.worker.added cfg ch = s.worker.added cfg ch) :
    Live cfg t := by
  simp only [State.view, Prod.mk.injEq] at hview
  obtain ⟨hdown, hsent, hforward, hpipe, hexit⟩ := hview
  constructor
  · rw [hdown]
    exact h.up
  · rw [hsent]
    exact h.noExit
  · exact hover
  · rw [hforward]
    exact fun hw => h.early (hearly hw)
  · rw [hforward]
    exact hdone
  · rw [hexit]
    exact hcode
  · exact hmarked
  · rw [hforward, hpipe]
    exact h.ended
  · intro ch
    rw [hsent, hforward, hpipe, hadded]
    exact h.account ch

theorem Live.congr (h : Live cfg s) (hview : t.view = s.view) (hworker : t.worker = s.worker) :
    Live cfg t := by
  apply h.move hview
  all_goals rw [hworker]
  · exact h.open_
  · exact id
  · exact h.done
  · exact h.code
  · exact h.marked
  · exact fun _ => rfl

theorem Live.enter (h : Live cfg s) {w : Worker} (hview : t.view = s.view) (hworker : t.worker = w)
    (hadded : ∀ ch, s.worker.added cfg ch = [])
    (hw : w.over = false ∧ w.early = false ∧ w.done = false)
    (hcode : ∀ returnCode, w.code = some returnCode → s.exitCode = some returnCode) :
    Live cfg t := by
  subst hworker
  obtain ⟨hover, hearly, hdone⟩ := hw
  apply h.move hview hover
  · intro htrue
    rw [hearly] at htrue
    cases htrue
  · intro htrue
    rw [hdone] at htrue
    cases htrue
  · exact hcode
  · cases hwhere : t.worker with
    | sendingMarker text returnCode =>
      rw [hwhere] at hdone
      cases hdone
    | reporting returnCode =>
      rw [hwhere] at hdone
      cases hdone
    | _ => exact trivial
  · intro ch
    rw [hadded]
    cases hwhere : t.worker with
    | reporting returnCode =>
      rw [hwhere] at hdone
      cases hdone
    | _ => rfl

theorem Live.put (h : Live cfg s) (who : Sender) {m : Message}
    (hexit : ∀ returnCode, m ≠ .exit returnCode) (hdata : ∀ ch, m.data ch = []) :
    Live cfg (s.put who m) := by
  rw [put_up h.up]
  refine ⟨h.up, ?_, h.open_, h.early, h.done, h.code, h.marked, h.ended, ?_⟩
  · intro returnCode hmem
    rcases List.mem_append.mp hmem with hmem | hmem
    · exact h.noExit returnCode hmem
    · exact hexit returnCode (List.mem_singleton.mp hmem).symm
  · intro ch
    show dataOf ch (s.sent ++ [m]) ++ _ ++ _ = _
    rw [dataOf_concat, hdata, List.append_nil]
    exact h.account ch

theorem Live.added_open (h : Live cfg s) {ch : Channel} (hopen : s.forward ch ≠ .finished) :
    s.worker.added cfg ch = [] := by
  cases hwhere : s.worker with
  | reporting returnCode =>
    have hdone : s.worker.done = true := by
      rw [hwhere]
      rfl
    exact absurd (h.done hdone ch) hopen
  | _ => rfl

theorem Live.write (h : Live cfg s) {ch : Channel} {b : Bytes}
    (hopen : (s.pipe ch).closed = false) : Live cfg (s.setPipe ch ((s.pipe ch).write b)) := by
  have hbusy : s.forward ch ≠ .finished := by
    intro hfinished
    have hclosed := (h.ended ch hfinished).1
    rw [hopen] at hclosed
    cases hclosed
  refine ⟨h.up, h.noExit, h.open_, h.early, h.done, h.code, h.marked, ?_, ?_⟩
  · intro other hfinished
    have hother : other ≠ ch := fun heq => hbusy (heq ▸ hfinished)
    rw [setPipe_other hother]
    exact h.ended other hfinished
  · intro other
    by_cases hother : other = ch
    · subst hother
      have haccount := h.account other
      rw [h.added_open hbusy, List.append_nil] at haccount
      show dataOf other s.sent ++ (s.forward other).held ++ _ = _ ++ s.worker.added cfg other
      rw [setPipe_same, h.added_open hbusy, List.append_nil]
      show dataOf other s.sent ++ (s.forward other).held ++ ((s.pipe other).unread ++ b) =
          (s.pipe other).written ++ b
      rw [← haccount, ← List.append_assoc]
    · rw [setPipe_other hother]
      exact h.account other

theorem Live.close (h : Live cfg s) (ch : Channel) :
    Live cfg (s.setPipe ch { s.pipe ch with closed := true }) := by
  refine ⟨h.up, h.noExit, h.open_, h.early, h.done, h.code, h.marked, ?_, ?_⟩
  · intro other hfinished
    by_cases hother : other = ch
    · subst hother
      rw [setPipe_same]
      exact ⟨rfl, (h.ended other hfinished).2⟩
    · rw [setPipe_other hother]
      exact h.ended other hfinished
  · intro other
    by_cases hother : other = ch
    · subst hother
      rw [setPipe_same]
      exact h.account other
    · rw [setPipe_other hother]
      exact h.account other

theorem setForward_same (ch : Channel) (f : Forward) : (s.setForward ch f).forward ch = f :=
  Function.update_self _ _ _

theorem setForward_other {ch other : Channel} (h : other ≠ ch) (f : Forward) :
    (s.setForward ch f).forward other = s.forward other :=
  Function.update_of_ne h _ _

theorem Live.task (h : Live cfg s) {ch : Channel} (hbusy : (s.forward ch).busy = true)
    (hdown : t.down = s.down) (hworker : t.worker = s.worker) (hexit : t.exitCode = s.exitCode)
    (hsent : ∀ returnCode, .exit returnCode ∉ t.sent)
    (hother : ∀ other, other ≠ ch → t.forward other = s.forward other ∧
      t.pipe other = s.pipe other ∧
      dataOf other t.sent = dataOf other s.sent)
    (hwritten : (t.pipe ch).written = (s.pipe ch).written)
    (hended : t.forward ch = .finished → (t.pipe ch).closed = true ∧ (t.pipe ch).unread = [])
    (haccount : dataOf ch t.sent ++ (t.forward ch).held ++ (t.pipe ch).unread =
      dataOf ch s.sent ++ (s.forward ch).held ++ (s.pipe ch).unread) : Live cfg t := by
  have hbegun : s.forward ch ≠ .notStarted := by
    intro hidle
    rw [hidle] at hbusy
    cases hbusy
  have hopen : s.forward ch ≠ .finished := by
    intro hfinished
    rw [hfinished] at hbusy
    cases hbusy
  constructor
  · rw [hdown]
    exact h.up
  · exact hsent
  · rw [hworker]
    exact h.open_
  · rw [hworker]
    exact fun hearly => absurd (h.early hearly ch) hbegun
  · rw [hworker]
    exact fun hdone => absurd (h.done hdone ch) hopen
  · rw [hworker, hexit]
    exact h.code
  · rw [hworker]
    exact h.marked
  · intro other hfinished
    by_cases heq : other = ch
    · subst heq
      exact hended hfinished
    · obtain ⟨hforward, hpipe, -⟩ := hother other heq
      rw [hpipe]
      exact h.ended other (hforward.symm.trans hfinished)
  · intro other
    rw [hworker]
    by_cases heq : other = ch
    · subst heq
      rw [haccount, hwritten]
      exact h.account other
    · obtain ⟨hforward, hpipe, hdata⟩ := hother other heq
      rw [hforward, hpipe, hdata]
      exact h.account other

theorem Live.sendChunk (h : Live cfg s) {ch : Channel} {chunk : Bytes}
    (htask : s.forward ch = .holding chunk) :
    Live cfg ((s.put (.forward ch) (.output ch chunk)).setForward ch .reading) := by
  have hbusy : (s.forward ch).busy = true := by
    rw [htask]
    rfl
  rw [put_up h.up]
  refine h.task hbusy rfl rfl rfl ?_ ?_ rfl ?_ ?_
  · intro returnCode hmem
    rcases List.mem_append.mp hmem with hmem | hmem
    · exact h.noExit returnCode hmem
    · cases List.mem_singleton.mp hmem
  · intro other hother
    refine ⟨setForward_other hother _, rfl, ?_⟩
    show dataOf other (s.sent ++ [.output ch chunk]) = _
    rw [dataOf_concat]
    show _ ++ (if ch = other then chunk else []) = _
    rw [if_neg (Ne.symm hother), List.append_nil]
  · intro hfinished
    rw [setForward_same] at hfinished
    cases hfinished
  · rw [setForward_same, htask]
    show dataOf ch (s.sent ++ [.output ch chunk]) ++ [] ++ _ = dataOf ch s.sent ++ chunk ++ _
    rw [dataOf_concat, List.append_nil]
    show _ ++ (if ch = ch then chunk else []) ++ _ = _
    rw [if_pos rfl]
    rfl

theorem Live.read (h : Live cfg s) {ch : Channel} {n : Nat} (htask : s.forward ch = .reading) :
    Live cfg ((s.setPipe ch { s.pipe ch with unread := (s.pipe ch).unread.drop n }).setForward ch
      (.holding ((s.pipe ch).unread.take n))) := by
  have hbusy : (s.forward ch).busy = true := by
    rw [htask]
    rfl
  have hpipe : ((s.setPipe ch { s.pipe ch with unread := (s.pipe ch).unread.drop n }).setForward ch
      (.holding ((s.pipe ch).unread.take n))).pipe ch =
        { s.pipe ch with unread := (s.pipe ch).unread.drop n } :=
    setPipe_same ch _
  refine h.task hbusy rfl rfl rfl h.noExit ?_ ?_ ?_ ?_
  · exact fun other hother => ⟨setForward_other hother _, setPipe_other hother _, rfl⟩
  · rw [hpipe]
  · intro hfinished
    rw [setForward_same] at hfinished
    cases hfinished
  · rw [setForward_same, hpipe, htask]
    show dataOf ch s.sent ++ (s.pipe ch).unread.take n ++ (s.pipe ch).unread.drop n =
        dataOf ch s.sent ++ [] ++ _
    rw [List.append_nil, List.append_assoc, List.take_append_drop]

theorem Live.stop (h : Live cfg s) {ch : Channel} {f : Forward} (htask : s.forward ch = .reading)
    (hheld : f.held = []) (hended : f = .finished → (s.pipe ch).closed = true ∧
      (s.pipe ch).unread = []) : Live cfg (s.setForward ch f) := by
  have hbusy : (s.forward ch).busy = true := by
    rw [htask]
    rfl
  refine h.task hbusy rfl rfl rfl h.noExit ?_ rfl ?_ ?_
  · exact fun other hother => ⟨setForward_other hother _, rfl, rfl⟩
  · rw [setForward_same]
    exact hended
  · rw [setForward_same, hheld, htask]
    rfl

/-- After `gather` nothing of the child is left to send. -/
theorem Live.gathered (h : Live cfg s) (hdone : s.worker.done = true) (ch : Channel) :
    (s.pipe ch).closed = true ∧ dataOf ch s.sent = (s.pipe ch).written ++
      s.worker.added cfg ch := by
  have hfinished := h.done hdone ch
  obtain ⟨hclosed, hempty⟩ := h.ended ch hfinished
  refine ⟨hclosed, ?_⟩
  have haccount := h.account ch
  rw [hfinished, hempty, List.append_nil] at haccount
  show dataOf ch s.sent = _
  rw [← haccount]
  exact (List.append_nil _).symm

theorem Live.sendMarker (h : Live cfg s) {text : Bytes} {returnCode : Int}
    (hworker : s.worker = .sendingMarker text returnCode) :
    Live cfg { s.put .main (.output .stdout text) with worker := .reporting returnCode } := by
  have hdone : s.worker.done = true := by rw [hworker]; rfl
  have hmarked : cfg.resultText = some text := by
    have hmarked := h.marked
    rw [hworker] at hmarked
    exact hmarked
  have hcode : s.exitCode = some returnCode := h.code returnCode (by rw [hworker]; rfl)
  rw [put_up h.up]
  refine ⟨h.up, ?_, rfl, fun hearly => absurd hearly Bool.false_ne_true, fun _ => h.done hdone, ?_,
    ?_, h.ended, ?_⟩
  · intro other hmem
    rcases List.mem_append.mp hmem with hmem | hmem
    · exact h.noExit other hmem
    · cases List.mem_singleton.mp hmem
  · intro other hother
    rw [← hother]
    exact hcode
  · show cfg.resultText.isSome = true
    rw [hmarked]
    rfl
  · intro ch
    obtain ⟨hclosed, hempty⟩ := h.ended ch (h.done hdone ch)
    have hsent := (h.gathered hdone ch).2
    rw [hworker] at hsent
    show dataOf ch (s.sent ++ [.output .stdout text]) ++ (s.forward ch).held ++ (s.pipe ch).unread =
      (s.pipe ch).written ++ (if ch = .stdout then cfg.resultText.getD [] else [])
    rw [dataOf_concat, hsent, h.done hdone ch, hempty, hmarked]
    cases ch with
    | stdout =>
      show (s.pipe .stdout).written ++ [] ++ text ++ [] ++ [] = (s.pipe .stdout).written ++ text
      rw [List.append_nil, List.append_nil, List.append_nil]
    | stderr =>
      show (s.pipe .stderr).written ++ [] ++ [] ++ [] ++ [] = (s.pipe .stderr).written ++ []
      rw [List.append_nil, List.append_nil, List.append_nil]

theorem Live.sendExit (h : Live cfg s) {returnCode : Int}
    (hworker : s.worker = .reporting returnCode) :
    Final cfg returnCode
      { s.put .main (.exit returnCode) with worker := .reported returnCode } := by
  have hdone : s.worker.done = true := by rw [hworker]; rfl
  obtain ⟨text, htext⟩ : ∃ text, cfg.resultText = some text := by
    have hmarked := h.marked
    rw [hworker] at hmarked
    exact Option.isSome_iff_exists.mp hmarked
  have hsent : ∀ ch, dataOf ch (s.sent ++ [.exit returnCode]) =
      (s.pipe ch).written ++ (if ch = .stdout then cfg.resultText.getD [] else []) := by
    intro ch
    have hsent := (h.gathered hdone ch).2
    rw [hworker] at hsent
    rw [dataOf_concat, hsent]
    exact List.append_nil _
  rw [put_up h.up]
  constructor
  · exact ⟨s.sent, rfl, h.noExit⟩
  · refine ⟨text, htext, (hsent .stdout).trans ?_⟩
    rw [if_pos rfl, htext]
    rfl
  · refine (hsent .stderr).trans ?_
    rw [if_neg Channel.noConfusion, List.append_nil]
  · exact fun ch => (h.gathered hdone ch).1
  · exact h.code returnCode (by rw [hworker]; rfl)
  · exact Or.inr ⟨rfl, h.done hdone⟩

theorem Worker.early_blank {w : Worker} (h : w.early = true) :
    w.over = false ∧ w.done = false ∧ w.code = none ∧ w.marked cfg ∧ ∀ ch, w.added cfg ch = [] := by
  cases w with
  | diagnosing => exact ⟨rfl, rfl, rfl, trivial, fun _ => rfl⟩
  | launching => exact ⟨rfl, rfl, rfl, trivial, fun _ => rfl⟩
  | announcing => exact ⟨rfl, rfl, rfl, trivial, fun _ => rfl⟩
  | announced => exact ⟨rfl, rfl, rfl, trivial, fun _ => rfl⟩
  | _ => cases h

theorem Live.begin (h : Live cfg s) (hview : t.view = s.view) (hfrom : s.worker.early = true)
    (hto : t.worker.early = true) : Live cfg t := by
  obtain ⟨hover, hdone, hcode, hmarked, hadded⟩ := @Worker.early_blank cfg _ hto
  apply h.move hview hover (fun _ => hfrom)
  · intro htrue
    rw [hdone] at htrue
    cases htrue
  · intro returnCode hsome
    rw [hcode] at hsome
    cases hsome
  · exact hmarked
  · intro ch
    rw [hadded, (Worker.early_blank hfrom).2.2.2.2]

theorem Live.attach (h : Live cfg s) (hworker : s.worker = .announced) :
    Live cfg { s with worker := .relaying, forward := fun _ => .reading } := by
  have hidle := h.early (by rw [hworker]; rfl)
  refine ⟨h.up, h.noExit, rfl, ?_, ?_, ?_, trivial, ?_, ?_⟩
  · exact fun hearly => absurd hearly Bool.false_ne_true
  · exact fun hdone => absurd hdone Bool.false_ne_true
  · exact fun returnCode hcode => absurd hcode.symm (Option.some_ne_none returnCode)
  · exact fun ch hfinished => absurd hfinished Forward.noConfusion
  · intro ch
    have haccount := h.account ch
    rw [hidle, hworker] at haccount
    exact haccount

theorem Live.gather (h : Live cfg s) {returnCode : Int} (hworker : s.worker = .gathering returnCode)
    (hall : ∀ ch, s.forward ch = .finished) :
    Live cfg { s with worker := .marking returnCode } := by
  refine h.move rfl rfl ?_ (fun _ => hall) ?_ trivial ?_
  · exact fun hearly => absurd hearly Bool.false_ne_true
  · intro other hother
    rw [← hother]
    apply h.code
    rw [hworker]
    rfl
  · intro ch
    rw [hworker]
    rfl

theorem Live.mark (h : Live cfg s) {w : Worker} {returnCode : Int}
    (hworker : s.worker = .marking returnCode) (hover : w.over = false) (hearly : w.early = false)
    (hcode : w.code = some returnCode) (hmarked : w.marked cfg)
    (hadded : ∀ ch, w.added cfg ch = []) : Live cfg { s with worker := w } := by
  have hdone : s.worker.done = true := by
    rw [hworker]
    rfl
  refine h.move rfl hover ?_ (fun _ => h.done hdone) ?_ hmarked ?_
  · intro htrue
    rw [show w.early = true from htrue] at hearly
    cases hearly
  · intro other hother
    rw [← hother, show _ = some returnCode from hcode]
    apply h.code
    rw [hworker]
    rfl
  · intro ch
    rw [hworker]
    exact hadded ch

theorem step_live (h : Live cfg s) (hstep : Step cfg s t) : Progress cfg t := by
  -- a step from one known state of the coroutine to another
  have henter : ∀ {v w : Worker}, s.worker = v → t.view = s.view → t.worker = w →
      (∀ ch, v.added cfg ch = []) →
      (w.over = false ∧ w.early = false ∧ w.done = false) →
      (∀ returnCode, w.code = some returnCode → s.exitCode = some returnCode) → Progress cfg t := by
    intro v w hfrom hview hto hadded hw hcode
    left
    apply h.enter hview hto
    · rw [hfrom]
      exact hadded
    · exact hw
    · exact hcode
  have hblank : ∀ {w : Worker}, w.code = none → ∀ returnCode, w.code = some returnCode →
      s.exitCode = some returnCode := by
    intro w hnone returnCode hsome
    rw [hnone] at hsome
    cases hsome
  cases hstep with
  | cat _ hopen => exact Or.inl ((h.write hopen).congr rfl rfl)
  | writeOut _ _ hopen => exact Or.inl (h.write hopen)
  | writeErr _ _ hopen => exact Or.inl ((h.write hopen).congr rfl rfl)
  | close => exact Or.inl (h.close _)
  | exit _ hrunning =>
    left
    refine ⟨h.up, h.noExit, h.open_, h.early, h.done, ?_, h.marked, h.ended, h.account⟩
    intro returnCode hcode
    have hexit := h.code returnCode hcode
    rw [hrunning] at hexit
    cases hexit
  | read htask => exact Or.inl (h.read htask)
  | endOfStream htask _ hclosed hempty => exact Or.inl (h.stop htask rfl fun _ => ⟨hclosed, hempty⟩)
  | readFails htask => exact Or.inl (h.stop htask rfl fun hfinished => by cases hfinished)
  | sendChunk htask => exact Or.inl (h.sendChunk htask)
  | lostForward => exact Or.inr (Or.inr ⟨rfl, h.noExit⟩)
  | lostMain => exact Or.inr (Or.inr ⟨rfl, h.noExit⟩)
  | sendDiagnostic hworker =>
    left
    have hput : Live cfg (s.put .main (.diagnostic cfg.diagnostic)) :=
      h.put .main (fun _ => Message.noConfusion) fun _ => rfl
    exact hput.begin rfl (by rw [(put_stdin _ _).2, hworker]; rfl) rfl
  | launch hworker => exact Or.inl (h.begin rfl (by rw [hworker]; rfl) rfl)
  | sendStarted hworker =>
    left
    have hput : Live cfg (s.put .main (.started cfg.pid)) :=
      h.put .main (fun _ => Message.noConfusion) fun _ => rfl
    exact hput.begin rfl (by rw [(put_stdin _ _).2, hworker]; rfl) rfl
  | launchRaises hworker => exact henter hworker rfl rfl (fun _ => rfl) ⟨rfl, rfl, rfl⟩ (hblank rfl)
  | attach hworker => exact Or.inl (h.attach hworker)
  | @readLine raw rest hworker =>
    rcases takeLine_cases s raw with heq | heq | ⟨error, heq⟩ | ⟨data, heq⟩
    · rw [heq] at henter ⊢
      exact henter hworker rfl rfl (fun _ => rfl) ⟨rfl, rfl, rfl⟩ (hblank rfl)
    · rw [heq]
      exact Or.inl (h.congr rfl rfl)
    · rw [heq] at henter ⊢
      exact henter hworker rfl rfl (fun _ => rfl) ⟨rfl, rfl, rfl⟩ (hblank rfl)
    · rw [heq] at henter ⊢
      exact henter hworker rfl rfl (fun _ => rfl) ⟨rfl, rfl, rfl⟩ (hblank rfl)
  | readRaises hworker => exact henter hworker rfl rfl (fun _ => rfl) ⟨rfl, rfl, rfl⟩ (hblank rfl)
  | stdinDrained hworker => exact henter hworker rfl rfl (fun _ => rfl) ⟨rfl, rfl, rfl⟩ (hblank rfl)
  | stdinBroken hworker => exact henter hworker rfl rfl (fun _ => rfl) ⟨rfl, rfl, rfl⟩ (hblank rfl)
  | noticeExit hworker hexit =>
    rcases hworker with hworker | hworker
    · exact henter hworker rfl rfl (fun _ => rfl) ⟨rfl, rfl, rfl⟩ fun _ hcode => hcode ▸ hexit
    · exact henter hworker rfl rfl (fun _ => rfl) ⟨rfl, rfl, rfl⟩ fun _ hcode => hcode ▸ hexit
  | gather hworker hall => exact Or.inl (h.gather hworker hall)
  | gatherRaises hworker => exact henter hworker rfl rfl (fun _ => rfl) ⟨rfl, rfl, rfl⟩ (hblank rfl)
  | noMarker hworker hmarker =>
    have htext : cfg.resultText = some [] := by rw [Setting.resultText, hmarker]
    left
    apply h.mark hworker rfl rfl rfl
    · show cfg.resultText.isSome = true
      rw [htext]
      rfl
    · intro ch
      show (if ch = .stdout then cfg.resultText.getD [] else []) = []
      rw [htext]
      exact ite_self _
  | readMarker hworker hmarker htext =>
    left
    apply h.mark hworker rfl rfl rfl
    · show cfg.resultText = some _
      rw [Setting.resultText, hmarker]
      exact htext
    · exact fun _ => rfl
  | markerRaises hworker => exact henter hworker rfl rfl (fun _ => rfl) ⟨rfl, rfl, rfl⟩ (hblank rfl)
  | sendMarker hworker => exact Or.inl (h.sendMarker hworker)
  | sendExit hworker => exact Or.inr (Or.inl ⟨_, h.sendExit hworker⟩)
  | finish hworker =>
    have hopen := h.open_
    rw [hworker] at hopen
    cases hopen
  | sendError =>
    refine Or.inr (Or.inr ⟨rfl, ?_⟩)
    exact (h.put .main (fun _ => Message.noConfusion) fun _ => rfl).noExit
  | _ => exact Or.inl (h.congr rfl rfl)

theorem Progress.step (h : Progress cfg s) (hstep : Step cfg s t) : Progress cfg t := by
  rcases h with hlive | ⟨returnCode, hfinal⟩ | ⟨hdown, hnone⟩
  · exact step_live hlive hstep
  · exact Or.inr (Or.inl ⟨returnCode, hfinal.step hstep⟩)
  · obtain ⟨hstill, hsent⟩ := (step_keeps hstep).down hdown
    refine Or.inr (Or.inr ⟨hstill, ?_⟩)
    rw [hsent]
    exact hnone

theorem progress_init : Progress cfg cfg.init := by
  left
  refine ⟨rfl, ?_, rfl, fun _ _ => rfl, ?_, ?_, trivial, ?_, fun _ => rfl⟩
  · exact fun returnCode => List.not_mem_nil
  · exact fun hdone => absurd hdone Bool.false_ne_true
  · exact fun returnCode hcode => absurd hcode.symm (Option.some_ne_none returnCode)
  · exact fun ch hfinished => absurd hfinished Forward.noConfusion

theorem step_exitCode (h : Step cfg s t) :
    t.exitCode = s.exitCode ∨ ∃ returnCode, validExit returnCode = true ∧
    t.exitCode = some returnCode := by
  have hput : ∀ who m, (s.put who m).exitCode = s.exitCode := by
    intro who m
    unfold State.put
    split <;> rfl
  cases h with
  | @exit returnCode _ _ hvalid => exact Or.inr ⟨returnCode, hvalid, rfl⟩
  | sendChunk => exact Or.inl (hput _ _)
  | sendDiagnostic => exact Or.inl (hput _ _)
  | sendStarted => exact Or.inl (hput _ _)
  | sendMarker => exact Or.inl (hput _ _)
  | sendExit => exact Or.inl (hput _ _)
  | sendError => exact Or.inl (hput _ _)
  | @readLine raw rest =>
    rcases takeLine_cases s raw with heq | heq | ⟨error, heq⟩ | ⟨data, heq⟩
    all_goals
      rw [heq]
      exact Or.inl rfl
  | _ => exact Or.inl rfl

end Account

end Relay

end ChipSystemSim
