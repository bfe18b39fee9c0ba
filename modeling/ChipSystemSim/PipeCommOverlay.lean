import ChipSystemSim.ReplaceText
import Mathlib.Logic.Function.Basic

/-! The scripts that install the remote backend into the upstream `pipe_comm.h`:
`apply_overlay` edits a whole LEGOSim checkout, and `patch_pipe_comm_remote`
that header alone. -/

namespace ChipSystemSim

/-- The files that `apply_overlay` reads or writes; the first two are its own. -/
inductive OverlayFile where
  | remotePipeCommOverlay
  | mnsimCompat
  | remotePipeComm
  | pipeComm
  | mlpMnsim
  | bfsMnsim
  | resnetMnsim
  | mlpSource
  | gpgpuMakefile
  deriving DecidableEq

/-- The texts that `read_text` gives. -/
abbrev Checkout := OverlayFile → Option Text

/-- An exception leaves the files as they are when it is raised. -/
abbrev Outcome := Except (String × Checkout) Checkout

def readText (c : Checkout) (file : OverlayFile) : Except (String × Checkout) Text :=
  match c file with
  | some t => .ok t
  | none => .error ("No such file or directory", c)

def writeText (c : Checkout) (file : OverlayFile) (t : Text) : Checkout :=
  Function.update c file (some t)

def upstreamRoot : Text := "return std::string(env_p) + \"/benchmark/MLP_NVL/\";".toList

def imageRoot : Text := "return std::string(env_p) + \"/artifact/MLP/\";".toList

def legacyPipeline : Text :=
  "| sed 's/[=,]//g' | sed 's/\\([_A-Z1-9]\\+\\)[ ]\\+\\([0-9]\\+\\)/\\1 \\1/'".toList

def fixedPipeline : Text :=
  ("| sed 's/[=,]//g' | sed 's@/\\*.*\\*/@@' | " ++
    "sed 's/\\([_A-Z1-9]\\+\\)[ ]\\+\\([0-9]\\+\\)/\\1 \\1/'").toList

def remotePipeEnabled : Text := "remotePipeEnabled".toList

def includeAnchor : Text := "#include \"sync_protocol.h\"".toList

def includeAdded : Text := "\n#include \"remote_pipe_comm.h\"".toList

def readMethod : Text :=
  "    int read_data(const char *file_name, void *buf, int nbyte) \x7b".toList

def readDispatch : Text :=
  "\n        if (remotePipeEnabled()) return remotePipeRead(file_name, buf, nbyte);".toList

def writeMethod : Text :=
  "    int write_data(const char *file_name, void *buf, int nbyte) \x7b".toList

def writeDispatch : Text :=
  "\n        if (remotePipeEnabled()) return remotePipeWrite(file_name, buf, nbyte);".toList

def mnsimCommand : Text :=
  ("system(\"cd /home/qc/test_simulator/Chiplet_Heterogeneous_newVersion/" ++
    "MNSIMChiplet; pip install torch torchvision ; python3 " ++
      "MNSIM_Chiplet.py -ID1 0 -ID2 2\");").toList

def reproducibleCommand : Text :=
  ("system(\"cd /opt/legosim/MNSIMChiplet; " ++
    "PYTHONPATH=/opt/legosim/MNSIMChiplet/MNSIM python3 " ++
    "MNSIM_Chiplet.py -ID1 0 -ID2 2\");").toList

def installRemotePipeComm (c : Checkout) : Outcome := do
  let overlay ← readText c .remotePipeCommOverlay
  return writeText c .remotePipeComm overlay

def installMnsimTask (file : OverlayFile) (c : Checkout) : Outcome := do
  let task ← readText c .mnsimCompat
  return writeText c file task

def fixMlpSource (c : Checkout) : Outcome := do
  let source ← readText c .mlpSource
  if ¬ imageRoot <:+: source ∧ upstreamRoot <:+: source then
    return writeText c .mlpSource (replaceAll upstreamRoot imageRoot 0 source)
  else return c

def fixGpgpuMakefile (c : Checkout) : Outcome := do
  let source ← readText c .gpgpuMakefile
  if fixedPipeline <:+: source then return c
  else if ¬ legacyPipeline <:+: source then
    throw ("upstream GPGPU-Sim token-generator layout did not match the expected revision", c)
  else return writeText c .gpgpuMakefile (replaceAll legacyPipeline fixedPipeline 0 source)

/-- The three replacements in `pipe_comm.h`, one after the other. -/
def redirected (source : Text) : Text :=
  replaceAll writeMethod (writeMethod ++ writeDispatch) 0
    (replaceAll readMethod (readMethod ++ readDispatch) 0
      (replaceAll includeAnchor (includeAnchor ++ includeAdded) 0 source))

def redirectPipeComm (c : Checkout) : Outcome := do
  let source ← readText c .pipeComm
  if remotePipeEnabled <:+: source then return c
  else if ¬ remotePipeEnabled <:+: redirected source then
    throw ("upstream PipeComm layout did not match the expected revision", c)
  else return writeText c .pipeComm (redirected source)

def fixLauncher (file : OverlayFile) (c : Checkout) : Outcome := do
  let source ← readText c file
  if ¬ reproducibleCommand <:+: source ∧ mnsimCommand <:+: source then
    return writeText c file (replaceAll mnsimCommand reproducibleCommand 0 source)
  else return c

/-- `apply_overlay` up to the header. -/
def prepareCheckout (c : Checkout) : Outcome := do
  let c ← installRemotePipeComm c
  let c ← installMnsimTask .mlpMnsim c
  let c ← installMnsimTask .bfsMnsim c
  let c ← installMnsimTask .resnetMnsim c
  let c ← fixMlpSource c
  fixGpgpuMakefile c

def applyOverlay (c : Checkout) : Outcome := do
  let c ← prepareCheckout c
  let c ← redirectPipeComm c
  let c ← fixLauncher .mlpMnsim c
  fixLauncher .bfsMnsim c

def replaceOnce (source old new : Text) (description : String) : Except String Text :=
  if new <:+: source then .ok source
  else if ¬ old <:+: source then .error ("unexpected PipeComm " ++ description ++ " fragment")
  else .ok (replaceFirst old new source)

def addInclude (source : Text) : Except String Text :=
  let anchor := includeAnchor ++ ['\n']
  if includeAdded.tail <:+: source then .ok source
  else if ¬ anchor <:+: source then .error "cannot locate PipeComm include insertion point"
  else .ok (replaceFirst anchor (anchor ++ includeAdded.tail ++ ['\n']) source)

/-- `patch_pipe_comm_remote` on the text of the header, which it writes last. -/
def patchPipeComm (source : Text) : Except String Text := do
  let source ← addInclude source
  let source ← replaceOnce source readMethod (readMethod ++ readDispatch) "read method"
  replaceOnce source writeMethod (writeMethod ++ writeDispatch) "write method"

/-- Both methods of the header start with the call of the remote backend. The include that
declares the backend is checked for, but is no part of the outcome. -/
def Redirected (header : Text) : Prop :=
  readMethod ++ readDispatch <:+: header ∧ writeMethod ++ writeDispatch <:+: header

/-- An exception with the header as it was, or a header that is redirected as a whole. -/
def AllOrNothing (source : Text) : Outcome → Prop
  | .error (_, after) =>
    after .pipeComm = some source ∨ ∃ header, after .pipeComm = some header ∧ Redirected header
  | .ok after => ∃ header, after .pipeComm = some header ∧ Redirected header

/-- The steps before the header find their files, and a Makefile that they know. -/
def Prepared (c : Checkout) : Prop :=
  (c .remotePipeCommOverlay).isSome ∧ (c .mnsimCompat).isSome ∧ (c .mlpSource).isSome ∧
    ∃ makefile, c .gpgpuMakefile = some makefile ∧
    (fixedPipeline <:+: makefile ∨ legacyPipeline <:+: makefile)

/-- The header has both methods in the expected form or neither, and where the
backend is already named, both are redirected. -/
def Redirectable (source : Text) : Prop :=
  if remotePipeEnabled <:+: source then Redirected source
  else (readMethod <:+: source ↔ writeMethod <:+: source)

section Header

variable {source : Text}

-- a brace ends a method and is nowhere else; a line end starts an addition
theorem method_chars : ∀ m ∈ [readMethod, writeMethod],
    m.getLast? = some '\x7b' ∧ '\x7b' ∉ m.dropLast ∧ '\n' ∉ m ∧ '"' ∉ m ∧ ';' ∉ m := by
  have hread : readMethod = _ := String.toList_ofList
  have hwrite : writeMethod = _ := String.toList_ofList
  rw [hread, hwrite]
  decide

theorem added_chars : ∀ i ∈ [includeAdded, readDispatch, writeDispatch],
    i.head? = some '\n' ∧ (i.getLast? = some '"' ∨ i.getLast? = some ';') ∧ '\x7b' ∉ i := by
  have hinclude : includeAdded = _ := String.toList_ofList
  have hread : readDispatch = _ := String.toList_ofList
  have hwrite : writeDispatch = _ := String.toList_ofList
  rw [hinclude, hread, hwrite]
  decide

theorem method_ne_nil {m : Text} (hm : m ∈ [readMethod, writeMethod]) : m ≠ [] := by
  rintro rfl
  cases (method_chars [] hm).1

theorem includeAnchor_last : includeAnchor.getLast? = some '"' := by
  have hinclude : includeAnchor = _ := String.toList_ofList
  rw [hinclude]
  decide

theorem includeAnchor_ne_nil : includeAnchor ≠ [] := by
  intro h
  have hlast := includeAnchor_last
  rw [h] at hlast
  cases hlast

theorem not_overlaps_includeAnchor {m : Text} (hm : m ∈ [readMethod, writeMethod]) :
    ¬ Overlaps includeAnchor m := by
  obtain ⟨-, -, -, hquote, -⟩ := method_chars m hm
  rw [← List.append_nil m]
  exact not_overlaps includeAnchor_last (fun h => hquote (List.mem_of_mem_dropLast h))
    List.not_mem_nil
    (Or.inr (Or.inl rfl))

theorem not_overlaps_readMethod : ¬ Overlaps readMethod writeMethod := by
  rw [← List.append_nil writeMethod]
  exact not_overlaps (method_chars readMethod (by simp)).1 (method_chars writeMethod (by simp)).2.1
    List.not_mem_nil
    (Or.inr (Or.inl rfl))

theorem readDispatch_kept : ¬ Overlaps writeMethod (readMethod ++ readDispatch) := by
  have hends : ¬ (readMethod <:+ writeMethod ∨ writeMethod <:+ readMethod) := by
    have hread : readMethod = _ := String.toList_ofList
    have hwrite : writeMethod = _ := String.toList_ofList
    rw [hread, hwrite]
    decide
  exact not_overlaps (method_chars writeMethod (by simp)).1 (method_chars readMethod (by simp)).2.1
    (added_chars readDispatch (by simp)).2.2 (Or.inr (Or.inr hends))

theorem foreign_method {m ins : Text} (hm : m ∈ [readMethod, writeMethod])
    (hins : ins ∈ [includeAdded, readDispatch, writeDispatch]) : Foreign m ins := by
  obtain ⟨hbrace, -, hnewline, hquote, hsemicolon⟩ := method_chars m hm
  obtain ⟨hhead, hlast, hno⟩ := added_chars ins hins
  refine Foreign.of_mem ?_ ?_ ?_ (List.mem_of_getLast? hbrace) hno
  · rintro rfl
    cases hhead
  · intro e he
    rw [hhead] at he
    cases he
    exact hnewline
  · intro e he
    rcases hlast with hlast | hlast
    · rw [hlast] at he
      cases he
      exact hquote
    · rw [hlast] at he
      cases he
      exact hsemicolon

theorem foreign_enabled : Foreign remotePipeEnabled includeAdded := by
  have henabled : remotePipeEnabled = _ := String.toList_ofList
  have hinclude : includeAdded = _ := String.toList_ofList
  rw [henabled, hinclude]
  decide

/-- Each dispatch asks whether the backend is enabled. -/
theorem enabled_dispatch {i : Text} (hi : i ∈ [readDispatch, writeDispatch]) (m : Text) :
    remotePipeEnabled <:+: m ++ i := by
  have hasks : ∀ i ∈ [readDispatch, writeDispatch], remotePipeEnabled <+: i.drop 13 := by
    have henabled : remotePipeEnabled = _ := String.toList_ofList
    have hread : readDispatch = _ := String.toList_ofList
    have hwrite : writeDispatch = _ := String.toList_ofList
    rw [henabled, hread, hwrite]
    decide
  exact ((hasks i hi).isInfix.trans (List.drop_suffix 13 i).isInfix).trans
    (List.suffix_append m i).isInfix

theorem readDispatch_infix_redirected (h : readMethod <:+: source) :
    readMethod ++ readDispatch <:+: redirected source := by
  have hinclude := infix_replaceAll includeAnchor_ne_nil (not_overlaps_includeAnchor (by simp))
    includeAdded h
  have hread := replacement_infix (method_ne_nil (by simp)) (readMethod ++ readDispatch) hinclude
  exact infix_replaceAll (method_ne_nil (by simp)) readDispatch_kept writeDispatch hread

theorem writeDispatch_infix_redirected (h : writeMethod <:+: source) :
    writeMethod ++ writeDispatch <:+: redirected source := by
  have hinclude := infix_replaceAll includeAnchor_ne_nil (not_overlaps_includeAnchor (by simp))
    includeAdded h
  have hread := infix_replaceAll (method_ne_nil (by simp)) not_overlaps_readMethod
    readDispatch hinclude
  exact replacement_infix (method_ne_nil (by simp)) _ hread

theorem method_infix_of_redirected {m : Text} (hm : m ∈ [readMethod, writeMethod])
    (h : m <:+: redirected source) : m <:+: source := by
  have h := infix_of_infix_replaceAll (method_ne_nil (by simp)) (foreign_method hm (by simp)) h
  have h := infix_of_infix_replaceAll (method_ne_nil (by simp)) (foreign_method hm (by simp)) h
  exact infix_of_infix_replaceAll includeAnchor_ne_nil (foreign_method hm (by simp)) h

theorem redirected_redirected_iff :
    Redirected (redirected source) ↔ readMethod <:+: source ∧ writeMethod <:+: source := by
  constructor
  · rintro ⟨hread, hwrite⟩
    constructor
    · apply method_infix_of_redirected (by simp)
      exact (List.prefix_append _ _).isInfix.trans hread
    · apply method_infix_of_redirected (by simp)
      exact (List.prefix_append _ _).isInfix.trans hwrite
  · rintro ⟨hread, hwrite⟩
    exact ⟨readDispatch_infix_redirected hread, writeDispatch_infix_redirected hwrite⟩

/-- The check after the replacements only sees whether one of them was made. -/
theorem enabled_redirected_iff (h : ¬ remotePipeEnabled <:+: source) :
    remotePipeEnabled <:+: redirected source ↔
      readMethod <:+: source ∨ writeMethod <:+: source := by
  constructor
  · intro henabled
    by_contra hneither
    rw [not_or] at hneither
    have habsent : ∀ m ∈ [readMethod, writeMethod], ¬ m <:+: source →
        ¬ m <:+: replaceAll includeAnchor (includeAnchor ++ includeAdded) 0 source :=
      fun m hm hno hin =>
        hno (infix_of_infix_replaceAll includeAnchor_ne_nil (foreign_method hm (by simp)) hin)
    have hread := habsent readMethod (by simp) hneither.1
    have hwrite := habsent writeMethod (by simp) hneither.2
    rw [redirected, replaceAll_absent hread, replaceAll_absent hwrite] at henabled
    exact h (infix_of_infix_replaceAll includeAnchor_ne_nil foreign_enabled henabled)
  · rintro (hread | hwrite)
    · exact (enabled_dispatch (by simp) _).trans (readDispatch_infix_redirected hread)
    · exact (enabled_dispatch (by simp) _).trans (writeDispatch_infix_redirected hwrite)

theorem replaceOnce_ok {old new t u : Text} {description : String} (hold : old ≠ [])
    (h : replaceOnce t old new description = .ok u) : new <:+: u := by
  unfold replaceOnce at h
  split at h
  · rename_i hin
    cases h
    exact hin
  · split at h
    · cases h
    · rename_i hin
      cases h
      exact replacement_infix_first hold (not_not.mp hin)

theorem replaceOnce_keeps {old ins b t u : Text} {description : String} (hold : old ≠ [])
    (hb : ¬ Overlaps old b) (h : replaceOnce t old (old ++ ins) description = .ok u)
    (hin : b <:+: t) : b <:+: u := by
  unfold replaceOnce at h
  split at h
  · cases h
    exact hin
  · split at h
    · cases h
    · cases h
      exact infix_replaceFirst hold hb hin

theorem patchPipeComm_redirected {header : Text} (h : patchPipeComm source = .ok header) :
    Redirected header := by
  unfold patchPipeComm at h
  simp only [bind, Except.bind] at h
  split at h
  · cases h
  · split at h
    · cases h
    · rename_i patched hread
      have hin := replaceOnce_ok (method_ne_nil (by simp)) hread
      exact ⟨replaceOnce_keeps (method_ne_nil (by simp)) readDispatch_kept h hin,
        replaceOnce_ok (method_ne_nil (by simp)) h⟩

end Header

section Checkout

variable {c c' : Checkout} {file other : OverlayFile} {t source : Text}

theorem writeText_self : writeText c file t file = some t := Function.update_self ..

theorem writeText_of_ne (h : other ≠ file) : writeText c file t other = c other :=
  Function.update_of_ne h ..

theorem readText_ok (h : c file = some t) : readText c file = .ok t := by rw [readText, h]

theorem readText_missing (h : c file = none) :
    readText c file = .error ("No such file or directory", c) := by
  rw [readText, h]

def Outcome.files : Outcome → Checkout
  | .ok after => after
  | .error (_, after) => after

/-- A step that leaves the header alone. -/
def LeavesHeader (step : Checkout → Outcome) : Prop := ∀ c, (step c).files .pipeComm = c .pipeComm

theorem LeavesHeader.bind {f g : Checkout → Outcome} (hf : LeavesHeader f) (hg : LeavesHeader g) :
    LeavesHeader fun c => f c >>= g := by
  intro c
  have hc := hf c
  dsimp only
  cases h : f c with
  | error e =>
    rw [h] at hc
    exact hc
  | ok c' =>
    rw [h] at hc
    exact (hg c').trans hc

/-- The shape of every other step: one file is read and at most one written. -/
theorem leavesHeader_of_read {step : Checkout → Text → Outcome} (file : OverlayFile)
    (h : ∀ c t, (step c t).files .pipeComm = c .pipeComm) :
    LeavesHeader fun c => readText c file >>= step c := by
  intro c
  dsimp only
  cases hc : c file with
  | none =>
    rw [readText_missing hc]
    rfl
  | some t =>
    rw [readText_ok hc]
    exact h c t

theorem leavesHeader_installRemotePipeComm : LeavesHeader installRemotePipeComm :=
  leavesHeader_of_read _ fun _ _ => writeText_of_ne (by decide)

theorem leavesHeader_installMnsimTask (h : .pipeComm ≠ file) :
    LeavesHeader (installMnsimTask file) :=
  leavesHeader_of_read _ fun _ _ => writeText_of_ne h

theorem leavesHeader_fixMlpSource : LeavesHeader fixMlpSource := by
  refine leavesHeader_of_read _ fun c t => ?_
  split
  · exact writeText_of_ne (by decide)
  · rfl

theorem leavesHeader_fixGpgpuMakefile : LeavesHeader fixGpgpuMakefile := by
  refine leavesHeader_of_read _ fun c t => ?_
  split
  · rfl
  · split
    · rfl
    · exact writeText_of_ne (by decide)

theorem leavesHeader_prepareCheckout : LeavesHeader prepareCheckout :=
  leavesHeader_installRemotePipeComm.bind <| (leavesHeader_installMnsimTask (by decide)).bind <|
    (leavesHeader_installMnsimTask (by decide)).bind <|
      (leavesHeader_installMnsimTask (by decide)).bind <|
    leavesHeader_fixMlpSource.bind leavesHeader_fixGpgpuMakefile

theorem fixMlpSource_ok (h : c .mlpSource = some t) :
    ∃ c', fixMlpSource c = .ok c' ∧ ∀ f, f ≠ .mlpSource → c' f = c f := by
  unfold fixMlpSource
  rw [readText_ok h]
  simp only [bind, Except.bind]
  split
  · exact ⟨_, rfl, fun f hf => writeText_of_ne hf⟩
  · exact ⟨_, rfl, fun f _ => rfl⟩

theorem fixGpgpuMakefile_ok (h : c .gpgpuMakefile = some t)
    (hknown : fixedPipeline <:+: t ∨ legacyPipeline <:+: t) :
    ∃ c', fixGpgpuMakefile c = .ok c' ∧ ∀ f, f ≠ .gpgpuMakefile → c' f = c f := by
  unfold fixGpgpuMakefile
  rw [readText_ok h]
  simp only [bind, Except.bind]
  split
  · exact ⟨_, rfl, fun f _ => rfl⟩
  · rename_i hfixed
    rw [if_neg (not_not.mpr (hknown.resolve_left hfixed))]
    exact ⟨_, rfl, fun f hf => writeText_of_ne hf⟩

theorem fixGpgpuMakefile_error (h : c .gpgpuMakefile = some t)
    (hunknown : ¬ (fixedPipeline <:+: t ∨ legacyPipeline <:+: t)) :
    ∃ e, fixGpgpuMakefile c = .error e := by
  rw [not_or] at hunknown
  unfold fixGpgpuMakefile
  rw [readText_ok h]
  simp only [bind, Except.bind]
  rw [if_neg hunknown.1, if_pos hunknown.2]
  exact ⟨_, rfl⟩

/-- The checkout after the tasks are installed. -/
def tasksInstalled (c : Checkout) (overlay task : Text) : Checkout :=
  writeText (writeText (writeText (writeText c .remotePipeComm overlay) .mlpMnsim task)
    .bfsMnsim task)
    .resnetMnsim task

theorem prepareCheckout_eq {overlay task : Text}
    (hoverlay : c .remotePipeCommOverlay = some overlay) (htask : c .mnsimCompat = some task) :
    prepareCheckout c = fixMlpSource (tasksInstalled c overlay task) >>= fixGpgpuMakefile := by
  have hremote : installRemotePipeComm c = .ok (writeText c .remotePipeComm overlay) := by
    rw [installRemotePipeComm, readText_ok hoverlay]
    rfl
  have hinstall : ∀ (c' : Checkout) (file : OverlayFile), c' .mnsimCompat = some task →
      installMnsimTask file c' = .ok (writeText c' file task) := by
    intro c' file h
    rw [installMnsimTask, readText_ok h]
    rfl
  have hkeeps : ∀ (c' : Checkout) (file : OverlayFile) (t : Text), .mnsimCompat ≠ file →
      c' .mnsimCompat = some task → writeText c' file t .mnsimCompat = some task :=
    fun c' file t hne h => (writeText_of_ne hne).trans h
  have h₁ := hkeeps c .remotePipeComm overlay (by decide) htask
  have h₂ := hkeeps _ .mlpMnsim task (by decide) h₁
  have h₃ := hkeeps _ .bfsMnsim task (by decide) h₂
  simp only [prepareCheckout, bind, Except.bind, hremote, hinstall _ _ h₁, hinstall _ _ h₂,
    hinstall _ _ h₃]
  rfl

theorem tasksInstalled_of_ne {overlay task : Text}
    (h : file ∉ [.remotePipeComm, .mlpMnsim, .bfsMnsim, .resnetMnsim]) :
    tasksInstalled c overlay task file = c file := by
  simp only [List.mem_cons, List.not_mem_nil, or_false, not_or] at h
  rw [tasksInstalled, writeText_of_ne h.2.2.2, writeText_of_ne h.2.2.1, writeText_of_ne h.2.1,
    writeText_of_ne h.1]

theorem prepareCheckout_ok (h : Prepared c) :
    ∃ c', prepareCheckout c = .ok c' ∧ (c' .mlpMnsim).isSome ∧ (c' .bfsMnsim).isSome := by
  obtain ⟨hoverlay, htask, hsource, makefile, hmakefile, hknown⟩ := h
  obtain ⟨overlay, hoverlay⟩ := Option.isSome_iff_exists.mp hoverlay
  obtain ⟨task, htask⟩ := Option.isSome_iff_exists.mp htask
  obtain ⟨source, hsource⟩ := Option.isSome_iff_exists.mp hsource
  obtain ⟨c₁, hc₁, hkeep₁⟩ := fixMlpSource_ok (c := tasksInstalled c overlay task)
    ((tasksInstalled_of_ne (by decide)).trans hsource)
  have hmakefile₁ : c₁ .gpgpuMakefile = some makefile :=
    (hkeep₁ _ (by decide)).trans ((tasksInstalled_of_ne (by decide)).trans hmakefile)
  obtain ⟨c₂, hc₂, hkeep₂⟩ := fixGpgpuMakefile_ok hmakefile₁ hknown
  refine ⟨c₂, ?_, ?_, ?_⟩
  · rw [prepareCheckout_eq hoverlay htask, hc₁]
    exact hc₂
  · rw [hkeep₂ _ (by decide), hkeep₁ _ (by decide)]
    rfl
  · rw [hkeep₂ _ (by decide), hkeep₁ _ (by decide)]
    rfl

theorem prepareCheckout_error (h : ¬ Prepared c) : ∃ e, prepareCheckout c = .error e := by
  cases hoverlay : c .remotePipeCommOverlay with
  | none =>
    simp only [prepareCheckout, installRemotePipeComm, readText_missing hoverlay, bind, Except.bind]
    exact ⟨_, rfl⟩
  | some overlay =>
    cases htask : c .mnsimCompat with
    | none =>
      have hmissing : writeText c .remotePipeComm overlay .mnsimCompat = none :=
        (writeText_of_ne (by decide)).trans htask
      simp only [prepareCheckout, installRemotePipeComm, installMnsimTask, readText_ok hoverlay,
        readText_missing hmissing, bind, Except.bind, pure, Except.pure]
      exact ⟨_, rfl⟩
    | some task =>
      rw [prepareCheckout_eq hoverlay htask]
      cases hsource : c .mlpSource with
      | none =>
        have hmissing : tasksInstalled c overlay task .mlpSource = none :=
          (tasksInstalled_of_ne (by decide)).trans hsource
        simp only [fixMlpSource, readText_missing hmissing, bind, Except.bind]
        exact ⟨_, rfl⟩
      | some source =>
        obtain ⟨c₁, hc₁, hkeep₁⟩ := fixMlpSource_ok (c := tasksInstalled c overlay task)
          ((tasksInstalled_of_ne (by decide)).trans hsource)
        have hmakefile₁ : c₁ .gpgpuMakefile = c .gpgpuMakefile :=
          (hkeep₁ _ (by decide)).trans (tasksInstalled_of_ne (by decide))
        rw [hc₁]
        cases hmakefile : c .gpgpuMakefile with
        | none =>
          simp only [fixGpgpuMakefile, readText_missing (hmakefile₁.trans hmakefile), bind,
            Except.bind]
          exact ⟨_, rfl⟩
        | some makefile =>
          apply fixGpgpuMakefile_error (hmakefile₁.trans hmakefile)
          intro hknown
          exact h ⟨by simp [hoverlay], by simp [htask], by simp [hsource], makefile,
            hmakefile, hknown⟩

theorem fixLauncher_ok (h : (c file).isSome) :
    ∃ c', fixLauncher file c = .ok c' ∧ ∀ f, f ≠ file → c' f = c f := by
  obtain ⟨t, ht⟩ := Option.isSome_iff_exists.mp h
  unfold fixLauncher
  rw [readText_ok ht]
  simp only [bind, Except.bind]
  split
  · exact ⟨_, rfl, fun f hf => writeText_of_ne hf⟩
  · exact ⟨_, rfl, fun f _ => rfl⟩

/-- The launchers were installed before, so that the last steps find them. -/
theorem fixLaunchers_ok (hmlp : (c .mlpMnsim).isSome) (hbfs : (c .bfsMnsim).isSome) :
    ∃ c', (fixLauncher .mlpMnsim c >>= fixLauncher .bfsMnsim) = .ok c' ∧
    c' .pipeComm = c .pipeComm := by
  obtain ⟨c₁, hc₁, hkeep₁⟩ := fixLauncher_ok hmlp
  have hbfs₁ : (c₁ .bfsMnsim).isSome := by rwa [hkeep₁ _ (by decide)]
  obtain ⟨c₂, hc₂, hkeep₂⟩ := fixLauncher_ok hbfs₁
  refine ⟨c₂, ?_, ?_⟩
  · rw [hc₁]
    exact hc₂
  · rw [hkeep₂ _ (by decide), hkeep₁ _ (by decide)]

theorem redirectPipeComm_enabled (h : c .pipeComm = some source)
    (henabled : remotePipeEnabled <:+: source) : redirectPipeComm c = .ok c := by
  rw [redirectPipeComm, readText_ok h]
  simp only [bind, Except.bind]
  rw [if_pos henabled]
  rfl

theorem redirectPipeComm_absent (h : c .pipeComm = some source)
    (hno : ¬ remotePipeEnabled <:+: source)
    (hneither : ¬ (readMethod <:+: source ∨ writeMethod <:+: source)) :
    ∃ m, redirectPipeComm c = .error (m, c) := by
  rw [redirectPipeComm, readText_ok h]
  simp only [bind, Except.bind]
  rw [if_neg hno, if_pos (fun henabled => hneither ((enabled_redirected_iff hno).mp henabled))]
  exact ⟨_, rfl⟩

theorem redirectPipeComm_written (h : c .pipeComm = some source)
    (hno : ¬ remotePipeEnabled <:+: source)
    (hone : readMethod <:+: source ∨ writeMethod <:+: source) :
    redirectPipeComm c = .ok (writeText c .pipeComm (redirected source)) := by
  rw [redirectPipeComm, readText_ok h]
  simp only [bind, Except.bind]
  rw [if_neg hno, if_neg (not_not.mpr ((enabled_redirected_iff hno).mpr hone))]
  rfl

/-- Where the header is not rejected, what the whole script leaves is what its step wrote. -/
theorem applyOverlay_written (hprepare : prepareCheckout c = .ok c') (hmlp : (c' .mlpMnsim).isSome)
    (hbfs : (c' .bfsMnsim).isSome) {header : Text}
    (h : redirectPipeComm c' = .ok c' ∧ c' .pipeComm = some header ∨
      redirectPipeComm c' = .ok (writeText c' .pipeComm header)) :
    ∃ after, applyOverlay c = .ok after ∧ after .pipeComm = some header := by
  rcases h with ⟨hredirect, hheader⟩ | hredirect
  · obtain ⟨after, hafter, hkeep⟩ := fixLaunchers_ok hmlp hbfs
    refine ⟨after, ?_, hkeep.trans hheader⟩
    rw [applyOverlay, hprepare, ← hafter]
    simp only [bind, Except.bind, hredirect]
  · have hmlp' : (writeText c' .pipeComm header .mlpMnsim).isSome := by
      rwa [writeText_of_ne (by decide)]
    have hbfs' : (writeText c' .pipeComm header .bfsMnsim).isSome := by
      rwa [writeText_of_ne (by decide)]
    obtain ⟨after, hafter, hkeep⟩ := fixLaunchers_ok hmlp' hbfs'
    refine ⟨after, ?_, hkeep.trans writeText_self⟩
    rw [applyOverlay, hprepare, ← hafter]
    simp only [bind, Except.bind, hredirect]

theorem allOrNothing_ok {after : Checkout} {header : Text} (h : after .pipeComm = some header) :
    AllOrNothing source (.ok after) ↔ Redirected header := by
  constructor
  · rintro ⟨header', hheader', hredirected⟩
    rw [h] at hheader'
    cases hheader'
    exact hredirected
  · intro hredirected
    exact ⟨header, h, hredirected⟩

theorem allOrNothing_prepared (h : Prepared c) (hsource : c .pipeComm = some source) :
    AllOrNothing source (applyOverlay c) ↔ Redirectable source := by
  obtain ⟨c', hprepare, hmlp, hbfs⟩ := prepareCheckout_ok h
  have hheader : c' .pipeComm = some source := by
    have hleaves := leavesHeader_prepareCheckout c
    rw [hprepare] at hleaves
    exact hleaves.trans hsource
  by_cases henabled : remotePipeEnabled <:+: source
  · obtain ⟨after, hafter, hkeep⟩ :=
      applyOverlay_written hprepare hmlp hbfs
        (Or.inl ⟨redirectPipeComm_enabled hheader henabled, hheader⟩)
    rw [hafter, allOrNothing_ok hkeep, Redirectable, if_pos henabled]
  · rw [Redirectable, if_neg henabled]
    by_cases hone : readMethod <:+: source ∨ writeMethod <:+: source
    · obtain ⟨after, hafter, hkeep⟩ :=
        applyOverlay_written hprepare hmlp hbfs
          (Or.inr (redirectPipeComm_written hheader henabled hone))
      rw [hafter, allOrNothing_ok hkeep, redirected_redirected_iff]
      constructor
      · rintro ⟨hread, hwrite⟩
        exact iff_of_true hread hwrite
      · intro hboth
        exact ⟨hone.elim id hboth.mpr, hone.elim hboth.mp id⟩
    · obtain ⟨m, hm⟩ := redirectPipeComm_absent hheader henabled hone
      have hraised : applyOverlay c = .error (m, c') := by
        rw [applyOverlay, hprepare]
        simp only [bind, Except.bind, hm]
      rw [hraised]
      rw [not_or] at hone
      exact iff_of_true (Or.inl hheader) (iff_of_false hone.1 hone.2)

theorem allOrNothing_unprepared (h : ¬ Prepared c) (hsource : c .pipeComm = some source) :
    AllOrNothing source (applyOverlay c) := by
  obtain ⟨⟨m, after⟩, hprepare⟩ := prepareCheckout_error h
  have hleaves := leavesHeader_prepareCheckout c
  rw [hprepare] at hleaves
  have hraised : applyOverlay c = .error (m, after) := by
    rw [applyOverlay, hprepare]
    rfl
  rw [hraised]
  exact Or.inl (hleaves.trans hsource)

theorem prepared_writeText (c : Checkout) (source : Text) :
    Prepared (writeText c .pipeComm source) ↔ Prepared c := by
  have hkeep : ∀ f, f ≠ .pipeComm → writeText c .pipeComm source f = c f :=
    fun f hf => writeText_of_ne hf
  rw [Prepared, hkeep _ (by decide), hkeep _ (by decide), hkeep _ (by decide), hkeep _ (by decide)]
  rfl

/-- `patch_pipe_comm_remote` only writes a header that is redirected as a whole.
`apply_overlay` does so exactly where the header has both methods or neither. -/
theorem overlay_all_or_nothing_iff (c : Checkout) (source : Text) :
    (∀ header, patchPipeComm source = .ok header → Redirected header) ∧
      (AllOrNothing source (applyOverlay (writeText c .pipeComm source)) ↔ ¬ Prepared c ∨
        Redirectable source) := by
  refine ⟨fun header h => patchPipeComm_redirected h, ?_⟩
  rw [← prepared_writeText c source]
  by_cases hprepared : Prepared (writeText c .pipeComm source)
  · rw [allOrNothing_prepared hprepared writeText_self]
    exact ⟨Or.inr, fun h => h.resolve_left (not_not.mpr hprepared)⟩
  · exact iff_of_true (allOrNothing_unprepared hprepared writeText_self) (Or.inl hprepared)

/-- A checkout with the Makefile of the pinned revision. -/
def pinnedCheckout : Checkout
  | .gpgpuMakefile => some legacyPipeline
  | _ => some []

/-- An upstream header whose write method has another spelling. -/
def otherWriteHeader : Text :=
  readMethod ++
    "\n    int write_data(const char *file_name, const void *buf, int nbyte) \x7b".toList

theorem otherWriteHeader_methods :
    ¬ remotePipeEnabled <:+: otherWriteHeader ∧ readMethod <:+: otherWriteHeader ∧
    ¬ writeMethod <:+: otherWriteHeader := by
  refine ⟨?_, (List.prefix_append _ _).isInfix, ?_⟩
  · intro h
    have hnone : 'P' ∉ otherWriteHeader := by
      have hread : readMethod = _ := String.toList_ofList
      rw [otherWriteHeader, hread, String.toList_ofList]
      decide +kernel
    have hP : 'P' ∈ remotePipeEnabled := by
      have henabled : remotePipeEnabled = _ := String.toList_ofList
      rw [henabled]
      decide
    exact hnone (h.mem hP)
  · have hread : readMethod = _ := String.toList_ofList
    have hwrite : writeMethod = _ := String.toList_ofList
    rw [otherWriteHeader, hread, hwrite, String.toList_ofList]
    decide +kernel

/-- The script ends without an exception and has redirected the reads alone. -/
theorem half_redirected :
    ¬ AllOrNothing otherWriteHeader
      (applyOverlay (writeText pinnedCheckout .pipeComm otherWriteHeader)) ∧
      ∃ after header, applyOverlay (writeText pinnedCheckout .pipeComm otherWriteHeader) =
        .ok after ∧
        after .pipeComm = some header ∧ readMethod ++ readDispatch <:+: header ∧
        ¬ writeMethod ++ writeDispatch <:+: header := by
  obtain ⟨hno, hread, hwrite⟩ := otherWriteHeader_methods
  have hprepared : Prepared (writeText pinnedCheckout .pipeComm otherWriteHeader) := by
    rw [prepared_writeText]
    exact ⟨rfl, rfl, rfl, _, rfl, Or.inr List.infix_rfl⟩
  constructor
  · rw [allOrNothing_prepared hprepared writeText_self, Redirectable, if_neg hno]
    exact fun h => hwrite (h.mp hread)
  · obtain ⟨c', hprepare, hmlp, hbfs⟩ := prepareCheckout_ok hprepared
    have hheader : c' .pipeComm = some otherWriteHeader := by
      have hleaves := leavesHeader_prepareCheckout
        (writeText pinnedCheckout .pipeComm otherWriteHeader)
      rw [hprepare] at hleaves
      exact hleaves.trans writeText_self
    obtain ⟨after, hafter, hkeep⟩ :=
      applyOverlay_written hprepare hmlp hbfs
        (Or.inr (redirectPipeComm_written hheader hno (Or.inl hread)))
    refine ⟨after, _, hafter, hkeep, readDispatch_infix_redirected hread, ?_⟩
    intro h
    exact hwrite (method_infix_of_redirected (by simp) ((List.prefix_append _ _).isInfix.trans h))

end Checkout

end ChipSystemSim
