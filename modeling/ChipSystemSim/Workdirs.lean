import ChipSystemSim.Staging
import ChipSystemSim.TextLines
import Mathlib.Data.List.Perm.Subperm

/-! The work directories that a worker makes in its run root. The choice of a name, `mkdir` and the
staged files have no suspension point between them, so that each is one step of a handler. -/

namespace ChipSystemSim

namespace Workdirs

/-- Where the run root is, and which names the file system can hold. -/
structure FileSystem where
  root : List Text
  legal : Text → Bool

/-- The names in the run root. A broken link is one that `exists` does not see. -/
abbrev Entries := List (Text × Bool)

def Entries.names (entries : Entries) : List Text := entries.map Prod.fst

/-- One component of a path, and not one that stands for a directory that is there. -/
def SafeName (t : Text) : Prop := '/' ∉ t ∧ t ≠ [] ∧ t ≠ ['.'] ∧ t ≠ ['.', '.']

instance (t : Text) : Decidable (SafeName t) := inferInstanceAs (Decidable (_ ∧ _))

section Names

variable (fs : FileSystem) (entries : Entries) (processId : Text)

/-- The loop `while workdir.exists()`, with the next suffix and the current name. -/
def chooseWorkdir : Nat → Nat → Text → Option (Except String Text)
  | 0, _, _ => none
  | fuel + 1, suffix, name =>
    if fs.legal name = false then some (.error "no name of this file system")
    else if (name, true) ∈ entries then
      chooseWorkdir fuel (suffix + 1) (processId ++ '-' :: decimal suffix)
    else some (.ok name)

/-- The names in the order in which the loop tries them. -/
def candidate : Nat → Text
  | 0 => processId
  | suffix + 1 => processId ++ '-' :: decimal (suffix + 1 : Nat)

theorem candidate_injective : Function.Injective (candidate processId) := by
  intro i j h
  cases i with
  | zero =>
    cases j with
    | zero => rfl
    | succ j =>
      have hlength := congrArg List.length h
      simp [candidate] at hlength
  | succ i =>
    cases j with
    | zero =>
      have hlength := congrArg List.length h
      simp [candidate] at hlength
    | succ j =>
      have hsuffix := List.append_cancel_left h
      have hdecimal := decimal_injective (List.cons.inj hsuffix).2
      exact Int.ofNat_inj.mp hdecimal

theorem mem_of_chooseWorkdir_none {fuel i : Nat}
    (h : chooseWorkdir fs entries processId fuel (i + 1) (candidate processId i) = none) :
    ∀ j < fuel, (candidate processId (i + j), true) ∈ entries := by
  induction fuel generalizing i with
  | zero => simp
  | succ fuel ih =>
    rw [chooseWorkdir] at h
    split at h
    · cases h
    · split at h
      · rename_i hmem
        intro j hj
        cases j with
        | zero => exact hmem
        | succ j =>
          have hnext := ih h j (by omega)
          rwa [Nat.add_right_comm] at hnext
      · cases h

/-- The loop ends before it has tried more names than there are. -/
theorem chooseWorkdir_isSome :
    (chooseWorkdir fs entries processId (entries.length + 1) 1 processId).isSome := by
  cases h : chooseWorkdir fs entries processId (entries.length + 1) 1 processId with
  | some result => rfl
  | none =>
    have hmem := mem_of_chooseWorkdir_none fs entries processId h
    have hnodup : ((List.range (entries.length + 1)).map (candidate processId)).Nodup :=
      List.nodup_range.map (candidate_injective processId)
    have hsubset : (List.range (entries.length + 1)).map (candidate processId) ⊆ entries.names := by
      intro name hname
      obtain ⟨i, hi, rfl⟩ := List.mem_map.mp hname
      have hi := hmem i (List.mem_range.mp hi)
      rw [Nat.zero_add] at hi
      exact List.mem_map_of_mem hi
    have hle := (List.subperm_of_subset hnodup hsubset).length_le
    simp only [List.length_map, List.length_range, Entries.names] at hle
    omega

/-- The check of the process name, the choice of a directory and `mkdir`. -/
def makeWorkdir : Except String Text :=
  if ¬SafeName processId then .error "process_id must be a single safe path component"
  else
    match (chooseWorkdir fs entries processId (entries.length + 1) 1 processId).get
        (chooseWorkdir_isSome fs entries processId) with
    | .error message => .error message
    | .ok name => if entries.names.contains name then .error "File exists" else .ok name

theorem chooseWorkdir_ok {fuel i : Nat} {name : Text}
    (h : chooseWorkdir fs entries processId fuel (i + 1) (candidate processId i) =
      some (.ok name)) :
    ∃ j, name = candidate processId j := by
  induction fuel generalizing i with
  | zero => cases h
  | succ fuel ih =>
    rw [chooseWorkdir] at h
    split at h
    · cases h
    · split at h
      · exact ih h
      · cases h
        exact ⟨i, rfl⟩

variable {processId}

theorem SafeName.candidate (h : SafeName processId) (i : Nat) :
    SafeName (candidate processId i) := by
  cases i with
  | zero => exact h
  | succ i =>
    obtain ⟨c, rest, hid⟩ := List.exists_cons_of_ne_nil h.2.1
    have hdigits : (decimal ((i + 1 : Nat) : Int)) ≠ [] := by
      obtain ⟨d, t, ht, -⟩ := toDigits_cons (i + 1)
      show Nat.toDigits 10 (i + 1) ≠ []
      rw [ht]
      exact List.cons_ne_nil d t
    obtain ⟨d, digits, hdigit⟩ := List.exists_cons_of_ne_nil hdigits
    refine ⟨?_, ?_, ?_, ?_⟩
    · rw [Workdirs.candidate, List.mem_append, List.mem_cons, not_or, not_or]
      exact ⟨h.1, by decide, notMem_decimal (by decide)⟩
    all_goals
      rw [Workdirs.candidate, hid, hdigit]
      intro heq
      have hlength := congrArg List.length heq
      simp only [List.length_append, List.length_cons, List.length_nil] at hlength
      omega

theorem makeWorkdir_ok {name : Text} (h : makeWorkdir fs entries processId = .ok name) :
    SafeName processId ∧ SafeName name ∧ name ∉ entries.names := by
  rw [makeWorkdir] at h
  split at h
  · cases h
  · rename_i hsafe
    rw [not_not] at hsafe
    split at h
    · cases h
    · rename_i chosen hchosen
      split at h
      · cases h
      · rename_i hnew
        cases h
        have hsome := Option.some_get (chooseWorkdir_isSome fs entries processId)
        rw [hchosen] at hsome
        obtain ⟨j, rfl⟩ := chooseWorkdir_ok fs entries processId hsome.symm
        exact ⟨hsafe, hsafe.candidate j, fun hmem => hnew (List.contains_iff_mem.mpr hmem)⟩

end Names

section Files

/-- The components of a path, as `pathlib` keeps them. -/
def pathParts (t : Text) : List Text := (t.splitOn '/').filter fun part => part ≠ [] ∧ part ≠ ['.']

/-- The file that the system finds under a path that is joined to a directory. -/
def openPath (dir : List Text) (t : Text) : List Text :=
  (pathParts t).foldl (fun path part => if part = ['.', '.'] then path.dropLast else path ++ [part])
    (if t.head? = some '/' then [] else dir)

/-- `(workdir / destination).write_bytes`: the path that is written. -/
def writePath (fs : FileSystem) (workdir : List Text) (destination : Text) :
    Except String (List Text) :=
  if (pathParts destination).all fs.legal = false then .error "no name of this file system"
  else if openPath workdir destination <+: workdir then .error "Is a directory"
  else .ok (openPath workdir destination)

/-- The loop over the staged files: what it has written when it ends, and how it ends. -/
def stageWrites (fs : FileSystem) (workdir : List Text) : List Json.Value →
    List (List Text × Bytes) × Except String Unit
  | [] => ([], .ok ())
  | item :: rest =>
    match stagedItem item with
    | .error message => ([], .error message)
    | .ok (destination, data) =>
      match writePath fs workdir destination with
      | .error message => ([], .error message)
      | .ok path =>
        ((path, data) :: (stageWrites fs workdir rest).1, (stageWrites fs workdir rest).2)

variable {fs : FileSystem} {workdir : List Text} {d : Text}

theorem pathName_parts (t : Text) : pathName t = (pathParts t).getLast?.getD [] := rfl

/-- The check of the worker lets through single components and the empty name. -/
theorem parts_of_pathName (h : pathName d = d) :
    '/' ∉ d ∧ (d = [] ∨ d ≠ ['.'] ∧ pathParts d = [d]) := by
  have hslash : '/' ∉ d := by
    rw [pathName_parts] at h
    cases hlast : (pathParts d).getLast? with
    | none =>
      rw [hlast] at h
      rw [← h]
      exact List.not_mem_nil
    | some part =>
      rw [hlast] at h
      have hpart : part ∈ d.splitOn '/' := (List.mem_filter.mp (List.mem_of_getLast? hlast)).1
      have hnone := TextLines.separator_notMem hpart
      rwa [show part = d from h] at hnone
  refine ⟨hslash, ?_⟩
  have hparts : pathParts d = [d].filter fun part => part ≠ [] ∧ part ≠ ['.'] := by
    rw [pathParts, List.splitOn_eq_singleton hslash]
  by_cases hempty : d = []
  · exact Or.inl hempty
  · right
    have hdot : d ≠ ['.'] := by
      rintro rfl
      rw [pathName_parts, hparts] at h
      simp at h
    refine ⟨hdot, ?_⟩
    rw [hparts]
    simp [hempty, hdot]

theorem head_ne_slash (h : '/' ∉ d) : d.head? ≠ some '/' := by
  intro hhead
  exact h (List.mem_of_mem_head? hhead)

theorem writePath_ok (hname : pathName d = d) {path : List Text}
    (h : writePath fs workdir d = .ok path) : SafeName d ∧ path = workdir ++ [d] := by
  obtain ⟨hslash, hparts⟩ := parts_of_pathName hname
  rw [writePath] at h
  split at h
  · cases h
  · split at h
    · cases h
    · rename_i hfile
      cases h
      rw [openPath, if_neg (head_ne_slash hslash)] at hfile ⊢
      rcases hparts with rfl | ⟨hdot, hparts⟩
      · exact absurd (List.prefix_refl workdir) hfile
      · rw [hparts, List.foldl_cons, List.foldl_nil] at hfile ⊢
        by_cases hup : d = ['.', '.']
        · rw [if_pos hup] at hfile
          exact absurd (List.dropLast_prefix workdir) hfile
        · rw [if_neg hup]
          refine ⟨⟨hslash, ?_, hdot, hup⟩, rfl⟩
          rintro rfl
          cases hparts

theorem stagedItem_ok {item : Json.Value} {data : Bytes} (h : stagedItem item = .ok (d, data)) :
    item.get "destination".toList = some (.str d) ∧ pathName d = d := by
  unfold stagedItem at h
  split at h
  · split at h
    · rename_i members destination hdestination
      split at h
      · cases h
      · rename_i hname
        split at h
        · split at h
          · cases h
          · split at h
            · cases h
            · cases h
              exact ⟨hdestination, not_not.mp hname⟩
        · cases h
    · cases h
  · cases h

def PlainDestination (item : Json.Value) : Prop :=
  ∃ d, item.get "destination".toList = some (.str d) ∧ SafeName d

/-- What is written is in the work directory, and nothing is accepted that could not be. -/
theorem stageWrites_spec (items : List Json.Value) :
    (∀ w ∈ (stageWrites fs workdir items).1, ∃ d, SafeName d ∧ w.1 = workdir ++ [d]) ∧
      ((stageWrites fs workdir items).2 = .ok () → ∀ item ∈ items, PlainDestination item) := by
  induction items with
  | nil => simp [stageWrites]
  | cons item rest ih =>
    rw [stageWrites]
    split
    · simp
    · rename_i d data hitem
      obtain ⟨hdestination, hname⟩ := stagedItem_ok hitem
      split
      · simp
      · rename_i path hpath
        obtain ⟨hsafe, rfl⟩ := writePath_ok hname hpath
        refine ⟨?_, fun hok => ?_⟩
        · intro w hw
          rcases List.mem_cons.mp hw with rfl | hw
          · exact ⟨d, hsafe, rfl⟩
          · exact ih.1 w hw
        · intro other hother
          rcases List.mem_cons.mp hother with rfl | hother
          · exact ⟨d, hdestination, hsafe⟩
          · exact ih.2 hok other hother

end Files

section Interleavings

structure Request where
  processId : Text
  stagedFiles : List Json.Value

/-- A work directory with what was staged into it, and how the staging ended. -/
structure Placement where
  request : Request
  name : Text
  written : List (List Text × Bytes)
  result : Except String Unit

/-- One call of `handle`: before its directory is chosen, answered with an error, or with a
directory. -/
inductive Handler where
  | idle
  | waiting (r : Request)
  | refused (r : Request) (message : String)
  | placed (p : Placement)

def Handler.error : Handler → Option String
  | .refused _ message => some message
  | .placed p =>
    match p.result with
    | .error message => some message
    | .ok _ => none
  | _ => none

structure State where
  entries : Entries
  handlers : Nat → Handler

variable (fs : FileSystem)

def stagedPlacement (r : Request) (name : Text) : Placement where
  request := r
  name
  written := (stageWrites fs (fs.root ++ [name]) r.stagedFiles).1
  result := (stageWrites fs (fs.root ++ [name]) r.stagedFiles).2

/-- The part of `handle` from the check of the process name to the last staged file. -/
def State.place (s : State) (k : Nat) (r : Request) : State :=
  match makeWorkdir fs s.entries r.processId with
  | .error message => { s with handlers := Function.update s.handlers k (.refused r message) }
  | .ok name =>
    ⟨(name, true) :: s.entries, Function.update s.handlers k (.placed (stagedPlacement fs r name))⟩

inductive Step (s : State) : State → Prop
  | request {k : Nat} {r : Request} (h : s.handlers k = .idle) :
      Step s { s with handlers := Function.update s.handlers k (.waiting r) }
  -- an earlier part of `handle` raises
  | fail {k : Nat} {r : Request} {message : String} (h : s.handlers k = .waiting r) :
      Step s { s with handlers := Function.update s.handlers k (.refused r message) }
  | place {k : Nat} {r : Request} (h : s.handlers k = .waiting r) : Step s (s.place fs k r)
  -- shared assets, children and others change the run root, without deleting from it
  | others {entries : Entries} (h : s.entries.names ⊆ entries.names) : Step s { s with entries }

inductive Reach : State → Prop
  | start (entries : Entries) : Reach ⟨entries, fun _ => .idle⟩
  | step {s t : State} : Reach s → Step fs s t → Reach t

variable {fs} {s t : State}

structure GoodPlacement (fs : FileSystem) (p : Placement) : Prop where
  process : SafeName p.request.processId
  name : SafeName p.name
  written : ∀ w ∈ p.written, ∃ d, SafeName d ∧ w.1 = fs.root ++ [p.name, d]
  accepted : p.result = .ok () → ∀ item ∈ p.request.stagedFiles, PlainDestination item

structure Invariant (fs : FileSystem) (s : State) : Prop where
  good : ∀ {k p}, s.handlers k = .placed p → GoodPlacement fs p
  present : ∀ {k p}, s.handlers k = .placed p → p.name ∈ s.entries.names
  distinct : ∀ {k l p q}, s.handlers k = .placed p → s.handlers l = .placed q →
    p.name = q.name → k = l

theorem placed_of_update {k l : Nat} {x : Handler} {p : Placement} (hx : ∀ q, x ≠ .placed q)
    (h : Function.update s.handlers k x l = .placed p) : s.handlers l = .placed p := by
  by_cases hl : l = k
  · subst hl
    rw [Function.update_self] at h
    exact absurd h (hx p)
  · rwa [Function.update_of_ne hl] at h

theorem Invariant.update (h : Invariant fs s) {k : Nat} {x : Handler} (hx : ∀ p, x ≠ .placed p) :
    Invariant fs { s with handlers := Function.update s.handlers k x } where
  good := fun hp => h.good (placed_of_update hx hp)
  present := fun hp => h.present (placed_of_update hx hp)
  distinct := fun hp hq => h.distinct (placed_of_update hx hp) (placed_of_update hx hq)

theorem Invariant.others (h : Invariant fs s) {entries : Entries}
    (hkept : s.entries.names ⊆ entries.names) : Invariant fs { s with entries } where
  good := fun hp => h.good hp
  present := fun hp => hkept (h.present hp)
  distinct := fun hp hq => h.distinct hp hq

theorem place_cases (fs : FileSystem) (s : State) (k : Nat) (r : Request) :
    (∃ message, s.place fs k r =
      { s with handlers := Function.update s.handlers k (.refused r message) }) ∨
      ∃ p, p.request = r ∧ GoodPlacement fs p ∧ p.name ∉ s.entries.names ∧
        s.place fs k r = ⟨(p.name, true) :: s.entries,
          Function.update s.handlers k (.placed p)⟩ := by
  cases hmade : makeWorkdir fs s.entries r.processId with
  | error message =>
    left
    refine ⟨message, ?_⟩
    rw [State.place, hmade]
  | ok name =>
    right
    obtain ⟨hprocess, hname, hnew⟩ := makeWorkdir_ok fs s.entries hmade
    have hstaged := @stageWrites_spec fs (fs.root ++ [name]) r.stagedFiles
    refine ⟨stagedPlacement fs r name, rfl, ⟨hprocess, hname, ?_, hstaged.2⟩, hnew, ?_⟩
    · intro w hw
      obtain ⟨d, hd, hpath⟩ := hstaged.1 w hw
      refine ⟨d, hd, ?_⟩
      rw [hpath, List.append_assoc]
      rfl
    · rw [State.place, hmade]
      rfl

theorem placed_update {k l : Nat} {p q : Placement}
    (h : Function.update s.handlers k (.placed p) l = .placed q) :
    (l = k ∧ q = p) ∨ s.handlers l = .placed q := by
  by_cases hl : l = k
  · subst hl
    rw [Function.update_self] at h
    cases h
    exact Or.inl ⟨rfl, rfl⟩
  · rw [Function.update_of_ne hl] at h
    exact Or.inr h

theorem Invariant.place (h : Invariant fs s) (k : Nat) (r : Request) :
    Invariant fs (s.place fs k r) := by
  rcases place_cases fs s k r with ⟨message, hplace⟩ | ⟨p, -, hgood, hnew, hplace⟩
  · rw [hplace]
    exact h.update fun _ => Handler.noConfusion
  · rw [hplace]
    constructor
    · intro l q hq
      rcases placed_update hq with ⟨-, rfl⟩ | hold
      · exact hgood
      · exact h.good hold
    · intro l q hq
      rcases placed_update hq with ⟨-, rfl⟩ | hold
      · exact List.mem_cons_self
      · exact List.mem_cons_of_mem _ (h.present hold)
    · intro l m q q' hq hq' hname
      rcases placed_update hq with ⟨rfl, rfl⟩ | hold
      · rcases placed_update hq' with ⟨rfl, -⟩ | hold'
        · rfl
        · rw [hname] at hnew
          exact absurd (h.present hold') hnew
      · rcases placed_update hq' with ⟨rfl, rfl⟩ | hold'
        · rw [← hname] at hnew
          exact absurd (h.present hold) hnew
        · exact h.distinct hold hold' hname

theorem Invariant.step (h : Invariant fs s) (hstep : Step fs s t) : Invariant fs t := by
  cases hstep with
  | request => exact h.update fun _ => Handler.noConfusion
  | fail => exact h.update fun _ => Handler.noConfusion
  | place => exact h.place _ _
  | others hkept => exact h.others hkept

theorem invariant_reach (h : Reach fs s) : Invariant fs s := by
  induction h with
  | start entries =>
    constructor
    · intro k p hp
      cases hp
    · intro k p hp
      cases hp
    · intro k l p q hp
      cases hp
  | step _ hstep ih => exact ih.step hstep

theorem step_placed (hstep : Step fs s t) {k : Nat} {p : Placement}
    (hp : s.handlers k = .placed p) : t.handlers k = .placed p := by
  have hother : ∀ {l : Nat} {x : Handler}, (∀ q, s.handlers l ≠ .placed q) →
      Function.update s.handlers l x k = .placed p := by
    intro l x hl
    have hne : k ≠ l := by
      rintro rfl
      exact hl p hp
    rw [Function.update_of_ne hne, hp]
  cases hstep with
  | request hidle => exact hother fun q hq => by rw [hidle] at hq; cases hq
  | fail hwaiting => exact hother fun q hq => by rw [hwaiting] at hq; cases hq
  | @place l r hwaiting =>
    have hl : ∀ q, s.handlers l ≠ .placed q := fun q hq => by rw [hwaiting] at hq; cases hq
    rcases place_cases fs s l r with ⟨message, hplace⟩ | ⟨q, -, -, -, hplace⟩
    · rw [hplace]
      exact hother hl
    · rw [hplace]
      exact hother hl
  | others => exact hp

theorem step_new (hstep : Step fs s t) {k : Nat} {p : Placement} (hnot : s.handlers k ≠ .placed p)
    (hp : t.handlers k = .placed p) : p.name ∉ s.entries.names := by
  cases hstep with
  | request => exact absurd (placed_of_update (fun _ => Handler.noConfusion) hp) hnot
  | fail => exact absurd (placed_of_update (fun _ => Handler.noConfusion) hp) hnot
  | @place l r hwaiting =>
    rcases place_cases fs s l r with ⟨message, hplace⟩ | ⟨q, -, -, hnew, hplace⟩
    · rw [hplace] at hp
      exact absurd (placed_of_update (fun _ => Handler.noConfusion) hp) hnot
    · rw [hplace] at hp
      rcases placed_update hp with ⟨-, rfl⟩ | hold
      · exact hnew
      · exact absurd hold hnot
  | others => exact absurd hp hnot

theorem place_error {r : Request} (k : Nat)
    (h : ¬SafeName r.processId ∨ ∃ item ∈ r.stagedFiles, ¬PlainDestination item) :
    ((s.place fs k r).handlers k).error.isSome := by
  rcases place_cases fs s k r with ⟨message, hplace⟩ | ⟨p, rfl, hgood, -, hplace⟩
  · rw [hplace]
    show (Function.update s.handlers k (.refused r message) k).error.isSome
    rw [Function.update_self]
    rfl
  · rw [hplace]
    show (Function.update s.handlers k (.placed p) k).error.isSome
    rw [Function.update_self, Handler.error]
    cases hresult : p.result with
    | error message => rfl
    | ok u =>
      rcases h with hname | ⟨item, hitem, hplain⟩
      · exact absurd hgood.process hname
      · exact absurd (hgood.accepted hresult item hitem) hplain

/-- In every interleaving the work directories are new, in the run root and not shared; what
is staged is in them, and what could not be is refused. -/
theorem workdirs_separate (h : Reach fs s) :
    (∀ k p, s.handlers k = .placed p →
      SafeName p.name ∧ p.name ∈ s.entries.names ∧
      (∀ w ∈ p.written, ∃ d, SafeName d ∧ w.1 = fs.root ++ [p.name, d]) ∧
        ∀ l q, s.handlers l = .placed q → q.name = p.name → l = k) ∧
    (∀ t, Step fs s t → ∀ k p, (s.handlers k = .placed p → t.handlers k = .placed p) ∧
      (s.handlers k ≠ .placed p → t.handlers k = .placed p → p.name ∉ s.entries.names)) ∧
    ∀ k r, s.handlers k = .waiting r → ¬SafeName r.processId ∨
    (∃ item ∈ r.stagedFiles, ¬PlainDestination item) →
      Step fs s (s.place fs k r) ∧ ((s.place fs k r).handlers k).error.isSome := by
  have hinv := invariant_reach h
  refine ⟨fun k p hp => ?_, fun t hstep k p => ⟨step_placed hstep, step_new hstep⟩,
    fun k r hwaiting hbad => ?_⟩
  · have hgood := hinv.good hp
    exact ⟨hgood.name, hinv.present hp, hgood.written, fun l q hq hname =>
      hinv.distinct hq hp hname⟩
  · exact ⟨.place hwaiting, place_error k hbad⟩

def openFileSystem : FileSystem := ⟨["run".toList], fun _ => true⟩

def spawnA : Request := ⟨['a'], []⟩

def twoRequests : State :=
  ⟨[], Function.update (Function.update (fun _ => .idle) 0 (.waiting spawnA)) 1 (.waiting spawnA)⟩

def twoSpawns : State := (twoRequests.place openFileSystem 0 spawnA).place openFileSystem 1 spawnA

theorem reach_twoSpawns : Reach openFileSystem twoSpawns := by
  have hwaiting : Reach openFileSystem twoRequests :=
    .step (.step (.start []) (.request rfl)) (.request rfl)
  have hfirst : Reach openFileSystem (twoRequests.place openFileSystem 0 spawnA) :=
    .step hwaiting (.place rfl)
  exact .step hfirst (.place rfl)

theorem workdirs_two_spawns :
    ∃ p q, twoSpawns.handlers 0 = .placed p ∧ twoSpawns.handlers 1 = .placed q ∧
    p.name ≠ q.name := by
  refine ⟨stagedPlacement openFileSystem spawnA ['a'], stagedPlacement openFileSystem spawnA
    ['a', '-', '1'], rfl, rfl,
    fun hname => ?_⟩
  have hseparate := ((workdirs_separate reach_twoSpawns).1 0 _ rfl).2.2.2 1 _ rfl hname.symm
  cases hseparate

end Interleavings

end Workdirs

end ChipSystemSim
