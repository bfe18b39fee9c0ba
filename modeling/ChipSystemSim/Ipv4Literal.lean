import ChipSystemSim.RequestHeader
import ChipSystemSim.TextLines
import ChipSystemSim.WordBytes

/-! `remotePipeParseIPv4`: one pass over the characters of a gateway's address. -/

namespace ChipSystemSim

open WordBytes (natBytes)

namespace Ipv4

/-- The locals of the loop. Its arithmetic is that of `unsigned int`. -/
structure Scan where
  octets : List Nat := [0, 0, 0, 0]
  octetIndex : Nat := 0
  value : Nat := 0
  deriving DecidableEq

def dot : UInt8 := 46

def isDigit (character : UInt8) : Bool := 48 ≤ character ∧ character ≤ 57

def Scan.next (s : Scan) (character : UInt8) : Option Scan :=
  if character = dot then
    if s.octetIndex = 3 ∨ 255 < s.value then none
    else some ⟨s.octets.set s.octetIndex s.value, s.octetIndex + 1, 0⟩
  else if isDigit character then
    let value := (s.value * 10 + (character.toNat - 48)) % 2 ^ 32
    if 255 < value then none else some { s with value }
  else none

def addressOf (octets : List Nat) : Nat :=
  octets.getD 0 0 ||| (octets.getD 1 0 <<< 8) % 2 ^ 32 ||| (octets.getD 2 0 <<< 16) % 2 ^ 32 |||
    (octets.getD 3 0 <<< 24) % 2 ^ 32

def Scan.finish (s : Scan) : Option Nat :=
  if s.octetIndex ≠ 3 ∨ 255 < s.value then none else some (addressOf (s.octets.set 3 s.value))

/-- The address when the result is true. -/
def remotePipeParseIPv4 (text : Bytes) : Option Nat := (text.foldlM Scan.next {}).bind Scan.finish

def octetFrom (value : Nat) (field : Bytes) : Nat :=
  field.foldl (fun v c => v * 10 + (c.toNat - 48)) value

def octetValue (field : Bytes) : Nat := octetFrom 0 field

/-- Digits, if any, of a number up to 255. -/
def Bounded (field : Bytes) : Prop := (∀ c ∈ field, isDigit c = true) ∧ octetValue field ≤ 255

instance (field : Bytes) : Decidable (Bounded field) := inferInstanceAs (Decidable (_ ∧ _))

def fields (text : Bytes) : List Bytes := text.splitOn dot

def IsDottedQuad (text : Bytes) : Prop :=
  (fields text).length = 4 ∧ ∀ field ∈ fields text, field ≠ [] ∧ Bounded field

section Fields

variable {s : Scan} {field : Bytes} {v : Nat}

theorem le_octetFrom (v : Nat) (field : Bytes) : v ≤ octetFrom v field := by
  induction field generalizing v with
  | nil => exact le_refl v
  | cons c field ih => exact le_trans (by omega) (ih (v * 10 + (c.toNat - 48)))

def BoundedFrom (value : Nat) (field : Bytes) : Prop :=
  (∀ c ∈ field, isDigit c = true) ∧ octetFrom value field ≤ 255

instance (value : Nat) (field : Bytes) : Decidable (BoundedFrom value field) :=
  inferInstanceAs (Decidable (_ ∧ _))

theorem boundedFrom_cons {c : UInt8} (hdigit : isDigit c = true) :
    BoundedFrom v (c :: field) ↔ BoundedFrom (v * 10 + (c.toNat - 48)) field := by
  rw [BoundedFrom, BoundedFrom, List.forall_mem_cons]
  exact ⟨fun h => ⟨h.1.2, h.2⟩, fun h => ⟨⟨hdigit, h.1⟩, h.2⟩⟩

theorem foldlM_field (hvalue : s.value ≤ 255) (hdot : dot ∉ field) :
    field.foldlM Scan.next s =
      if BoundedFrom s.value field then some { s with value := octetFrom s.value field }
      else none := by
  induction field generalizing s with
  | nil =>
    have hbounded : BoundedFrom s.value [] := ⟨fun c hc => absurd hc List.not_mem_nil, hvalue⟩
    rw [if_pos hbounded]
    rfl
  | cons c field ih =>
    rw [List.mem_cons, not_or] at hdot
    have hbyte : c.toNat < 256 := c.toNat_lt
    have hmod : (s.value * 10 + (c.toNat - 48)) % 2 ^ 32 = s.value * 10 + (c.toNat - 48) := by
      apply Nat.mod_eq_of_lt
      omega
    have hle : s.value * 10 + (c.toNat - 48) ≤ octetFrom s.value (c :: field) :=
      le_octetFrom _ field
    rw [List.foldlM_cons, Scan.next, if_neg (Ne.symm hdot.1)]
    by_cases hdigit : isDigit c = true
    · rw [if_pos hdigit]
      simp only [hmod]
      by_cases hlarge : 255 < s.value * 10 + (c.toNat - 48)
      · rw [if_pos hlarge, if_neg fun h => absurd (hle.trans h.2) (not_le.mpr hlarge)]
        rfl
      · rw [if_neg hlarge]
        show field.foldlM Scan.next { s with value := s.value * 10 + (c.toNat - 48) } = _
        rw [ih (not_lt.mp hlarge) hdot.2]
        simp only [boundedFrom_cons hdigit]
        rfl
    · rw [if_neg hdigit, if_neg fun h => hdigit (h.1 c List.mem_cons_self)]
      rfl

/-- The loop after some octets: they are followed by zeros. -/
def after (octets : List Nat) (value : Nat) : Scan :=
  ⟨octets ++ List.replicate (4 - octets.length) 0, octets.length, value⟩

theorem next_dot {octets : List Nat} (hlength : octets.length < 3) (hv : v ≤ 255) :
    (after octets v).next dot = some (after (octets ++ [v]) 0) := by
  have hzeros : List.replicate (4 - octets.length) 0 = 0 ::
      List.replicate (4 - (octets.length + 1)) 0 := by
    rw [← List.replicate_succ]
    congr 1
    omega
  have hindex : ¬((after octets v).octetIndex = 3 ∨ 255 < (after octets v).value) := by
    show ¬(octets.length = 3 ∨ 255 < v)
    omega
  rw [Scan.next, if_pos rfl, if_neg hindex]
  show some (Scan.mk ((octets ++ List.replicate (4 - octets.length) 0).set octets.length v)
      (octets.length + 1) 0) = _
  rw [hzeros, List.set_append_right _ _ (le_refl _), Nat.sub_self, List.set_cons_zero, after,
    List.length_append, List.length_singleton, List.append_assoc]
  rfl

theorem next_dot_last {octets : List Nat} (hlength : octets.length = 3) :
    (after octets v).next dot = none := by
  have hindex : (after octets v).octetIndex = 3 ∨ 255 < (after octets v).value := Or.inl hlength
  rw [Scan.next, if_pos rfl, if_pos hindex]

theorem foldlM_after {octets : List Nat} (hdot : dot ∉ field) :
    field.foldlM Scan.next (after octets 0) =
      if Bounded field then some (after octets (octetValue field)) else none :=
  foldlM_field (Nat.zero_le _) hdot

theorem foldlM_fields {octets : List Nat} {fs : List Bytes} (hoctets : octets.length ≤ 3)
    (hdots : ∀ f ∈ field :: fs, dot ∉ f) :
    ([dot].intercalate (field :: fs)).foldlM Scan.next (after octets 0) =
      if (∀ f ∈ field :: fs, Bounded f) ∧ octets.length + fs.length ≤ 3
      then some (after (octets ++ (field :: fs).dropLast.map octetValue)
        (octetValue ((field :: fs).getLast (List.cons_ne_nil _ _)))) else none := by
  induction fs generalizing field octets with
  | nil =>
    rw [List.intercalate_singleton, foldlM_after (hdots field List.mem_cons_self)]
    simp only [List.mem_singleton, forall_eq, List.length_nil, Nat.add_zero, hoctets, and_true,
      List.dropLast_singleton, List.map_nil, List.append_nil, List.getLast_singleton]
  | cons g fs ih =>
    have hrest : ∀ f ∈ g :: fs, dot ∉ f := fun f hf => hdots f (List.mem_cons_of_mem _ hf)
    rw [List.intercalate_cons_cons, List.foldlM_append, List.foldlM_append,
      foldlM_after (hdots field List.mem_cons_self)]
    by_cases hbounded : Bounded field
    · rw [if_pos hbounded]
      simp only [List.foldlM_cons, List.foldlM_nil, Option.bind_eq_bind, Option.bind_some]
      by_cases hlast : octets.length = 3
      · rw [next_dot_last hlast, if_neg fun h => by
          have := h.2
          rw [List.length_cons] at this
          omega]
        rfl
      · rw [next_dot (by omega) hbounded.2]
        simp only [Option.pure_def, Option.bind_some]
        have hnext : (octets ++ [octetValue field]).length ≤ 3 := by
          rw [List.length_append, List.length_singleton]
          omega
        rw [ih hnext hrest]
        simp only [List.forall_mem_cons, hbounded, true_and, List.length_append, List.length_nil,
          List.length_cons, List.dropLast_cons_cons, List.map_cons, List.append_assoc,
          List.singleton_append, List.getLast_cons_cons]
        congr 2
        rw [eq_iff_iff]
        omega
    · rw [if_neg hbounded, if_neg fun h => hbounded (h.1 field List.mem_cons_self)]
      rfl

end Fields

section Address

theorem or_octet {low octet place : Nat} (hlow : low < 2 ^ place) (hplace : place ≤ 24)
    (hoctet : octet ≤ 255) : low ||| (octet <<< place) % 2 ^ 32 = low + octet * 2 ^ place := by
  have hfits : octet <<< place < 2 ^ 32 := by
    rw [Nat.shiftLeft_eq]
    calc octet * 2 ^ place
      _ ≤ 255 * 2 ^ 24 := Nat.mul_le_mul hoctet (Nat.pow_le_pow_right (by decide) hplace)
      _ < 2 ^ 32 := by decide
  rw [Nat.mod_eq_of_lt hfits, Nat.or_comm, ← Nat.shiftLeft_add_eq_or_of_lt hlow, Nat.shiftLeft_eq,
    Nat.add_comm]

theorem addressOf_eq {a b c d : Nat} (ha : a ≤ 255) (hb : b ≤ 255) (hc : c ≤ 255) (hd : d ≤ 255) :
    addressOf [a, b, c, d] = a + b * 2 ^ 8 + c * 2 ^ 16 + d * 2 ^ 24 := by
  show a ||| (b <<< 8) % 2 ^ 32 ||| (c <<< 16) % 2 ^ 32 ||| (d <<< 24) % 2 ^ 32 = _
  rw [or_octet (by omega) (by decide) hb, or_octet (by omega) (by decide) hc,
    or_octet (by omega) (by decide) hd]

theorem natBytes_addressOf {a b c d : Nat} (ha : a ≤ 255) (hb : b ≤ 255) (hc : c ≤ 255)
    (hd : d ≤ 255) : natBytes 4 (addressOf [a, b, c, d]) = [a, b, c, d].map UInt8.ofNat := by
  have hbyte : ∀ n m, n ≤ 255 → UInt8.ofNat (n + 256 * m) = UInt8.ofNat n := by
    intro n m hn
    apply UInt8.toNat_inj.mp
    rw [UInt8.toNat_ofNat', UInt8.toNat_ofNat']
    omega
  rw [addressOf_eq ha hb hc hd]
  simp only [natBytes, List.map_cons, List.map_nil, List.cons.injEq, and_true]
  refine ⟨?_, ?_, ?_, ?_⟩
  · rw [← hbyte a (b + 256 * c + 65536 * d) ha]
    congr 1
    omega
  · rw [← hbyte b (c + 256 * d) hb]
    congr 1
    omega
  · rw [← hbyte c d hc]
    congr 1
    omega
  · congr 1
    omega

end Address

theorem fields_dots (text : Bytes) : ∀ field ∈ fields text, dot ∉ field :=
  fun _ h => TextLines.separator_notMem h

theorem finish_after {octets : List Nat} {value : Nat} (hvalue : value ≤ 255) :
    (after octets value).finish = if octets.length = 3 then some (addressOf (octets ++ [value]))
      else none := by
  by_cases hlength : octets.length = 3
  · have hset : (after octets value).octets.set 3 value = octets ++ [value] := by
      show (octets ++ List.replicate (4 - octets.length) 0).set 3 value = _
      rw [List.set_append_right _ _ hlength.le, hlength]
      rfl
    have hlast : ¬((after octets value).octetIndex ≠ 3 ∨ 255 < (after octets value).value) :=
      not_or.mpr ⟨not_not.mpr hlength, not_lt.mpr hvalue⟩
    rw [Scan.finish, if_neg hlast, if_pos hlength]
    exact congrArg (fun octets => some (addressOf octets)) hset
  · have hshort : (after octets value).octetIndex ≠ 3 ∨ 255 < (after octets value).value :=
      Or.inl hlength
    rw [Scan.finish, if_pos hshort, if_neg hlength]

theorem remotePipeParseIPv4_eq (text : Bytes) :
    remotePipeParseIPv4 text =
      if (fields text).length = 4 ∧ ∀ field ∈ fields text, Bounded field
      then some (addressOf ((fields text).map octetValue)) else none := by
  have hjoin : [dot].intercalate (fields text) = text := List.intercalate_splitOn dot
  have hdots := fields_dots text
  cases hfields : fields text with
  | nil => exact absurd hfields (List.splitOn_ne_nil _ _)
  | cons field fs =>
    rw [hfields] at hdots hjoin
    have hnone : ([] : List Nat).length ≤ 3 := Nat.zero_le 3
    have hscan := foldlM_fields hnone hdots
    rw [hjoin, List.length_nil, Nat.zero_add, List.nil_append] at hscan
    have hstart : remotePipeParseIPv4 text = (text.foldlM Scan.next (after [] 0)).bind
        Scan.finish := rfl
    rw [hstart, hscan]
    by_cases hbounded : ∀ f ∈ field :: fs, Bounded f
    · have hlength : ((field :: fs).dropLast.map octetValue).length = fs.length := by
        rw [List.length_map, List.length_dropLast, List.length_cons, Nat.add_sub_cancel]
      have hlast := (hbounded _ (List.getLast_mem (List.cons_ne_nil field fs))).2
      have hfour : (field :: fs).length = 4 ↔ fs.length = 3 := by
        rw [List.length_cons]
        omega
      by_cases hmany : fs.length ≤ 3
      · rw [if_pos ⟨hbounded, hmany⟩, Option.bind_some, finish_after hlast, hlength,
          ← List.map_singleton, ← List.map_append, List.dropLast_append_getLast]
        simp only [hfour, and_iff_left hbounded]
      · rw [if_neg fun h => hmany h.2, if_neg fun h => hmany (hfour.mp h.1).le]
        rfl
    · rw [if_neg fun h => hbounded h.1, if_neg fun h => hbounded h.2]
      rfl

theorem natBytes_octets {octets : List Nat} (hlength : octets.length = 4)
    (hle : ∀ octet ∈ octets, octet ≤ 255) :
    natBytes 4 (addressOf octets) = octets.map UInt8.ofNat := by
  obtain ⟨a, b, c, d, rfl⟩ : ∃ a b c d, octets = [a, b, c, d] := List.length_eq_four.mp hlength
  exact natBytes_addressOf (hle a (by simp)) (hle b (by simp)) (hle c (by simp)) (hle d (by simp))

section Overflow

/-- A scan keeps octets that have passed the check. -/
def Small (s : Scan) : Prop := s.value ≤ 255 ∧ ∀ octet ∈ s.octets, octet ≤ 255

theorem Small.next {s t : Scan} {character : UInt8} (h : Small s)
    (hnext : s.next character = some t) : Small t := by
  rw [Scan.next] at hnext
  split at hnext
  · split at hnext
    · cases hnext
    · cases hnext
      refine ⟨Nat.zero_le _, fun octet hoctet => ?_⟩
      rcases List.mem_or_eq_of_mem_set hoctet with hold | rfl
      · exact h.2 octet hold
      · exact h.1
  · split at hnext
    · dsimp only at hnext
      split at hnext
      · cases hnext
      · rename_i hle
        cases hnext
        exact ⟨not_lt.mp hle, h.2⟩
    · cases hnext

theorem Small.foldlM {text : Bytes} {s t : Scan} (h : Small s)
    (hscan : text.foldlM Scan.next s = some t) : Small t := by
  induction text generalizing s with
  | nil =>
    cases hscan
    exact h
  | cons c text ih =>
    rw [List.foldlM_cons] at hscan
    obtain ⟨u, hu, hrest⟩ := Option.bind_eq_some_iff.mp hscan
    exact ih (h.next hu) hrest

end Overflow

/-- No intermediate value leaves the range of an `unsigned int`: in the loop the next value
and the octets at any place, and behind the loop each shifted octet of the stored value. -/
structure NoOverflow (text : Bytes) : Prop where
  inLoop : ∀ before character rest s, text = before ++ character :: rest →
    before.foldlM Scan.next {} = some s →
      s.value * 10 + (character.toNat - 48) < 2 ^ 32 ∧ s.value <<< 24 < 2 ^ 32 ∧
        ∀ octet ∈ s.octets, octet <<< 24 < 2 ^ 32
  stored : ∀ s, text.foldlM Scan.next {} = some s → ∀ place < 4,
    (s.octets.set 3 s.value).getD place 0 <<< (8 * place) < 2 ^ 32

theorem noOverflow (text : Bytes) : NoOverflow text := by
  have hshift : ∀ n ≤ 255, ∀ places ≤ 24, n <<< places < 2 ^ 32 := by
    intro n hn places hplaces
    rw [Nat.shiftLeft_eq]
    calc n * 2 ^ places
      _ ≤ 255 * 2 ^ 24 := Nat.mul_le_mul hn (Nat.pow_le_pow_right (by decide) hplaces)
      _ < 2 ^ 32 := by decide
  have hsmall : ∀ {before : Bytes} {s}, before.foldlM Scan.next {} = some s → Small s :=
    fun hscan => Small.foldlM ⟨Nat.zero_le _, by decide⟩ hscan
  refine ⟨?_, ?_⟩
  · intro before character rest s _ hscan
    obtain ⟨hvalue, hoctets⟩ := hsmall hscan
    have hbyte : character.toNat < 256 := character.toNat_lt
    exact ⟨by omega, hshift _ hvalue _ le_rfl, fun octet hoctet =>
      hshift _ (hoctets octet hoctet) _ le_rfl⟩
  · intro s hscan place hplace
    obtain ⟨hvalue, hoctets⟩ := hsmall hscan
    refine hshift _ ?_ _ (by omega)
    rw [List.getD_eq_getElem?_getD]
    cases hget : (s.octets.set 3 s.value)[place]? with
    | none => exact Nat.zero_le _
    | some octet =>
      rcases List.mem_or_eq_of_mem_set (List.mem_of_getElem? hget) with hold | rfl
      · exact hoctets octet hold
      · exact hvalue

/-- The parser as it is meant: dotted quads and nothing else. -/
def ParsedRight (text : Bytes) : Prop :=
  ((remotePipeParseIPv4 text).isSome ↔ IsDottedQuad text) ∧
    (∀ address ∈ remotePipeParseIPv4 text, natBytes 4 address = (fields text).map fun f =>
      UInt8.ofNat (octetValue f)) ∧
    NoOverflow text

/-- The parser is right except about four fields that pass for octets although one of them
is empty. -/
theorem parse_ipv4_iff (text : Bytes) :
    ParsedRight text ↔
      ¬((fields text).length = 4 ∧ (∀ field ∈ fields text, Bounded field) ∧ [] ∈ fields text) := by
  have haccepts : (remotePipeParseIPv4 text).isSome ↔ (fields text).length = 4 ∧
      ∀ field ∈ fields text, Bounded field := by
    rw [remotePipeParseIPv4_eq]
    split
    · rename_i h
      exact ⟨fun _ => h, fun _ => rfl⟩
    · rename_i h
      exact ⟨fun hsome => absurd hsome (by simp), fun h' => absurd h' h⟩
  have hbytes : ∀ address ∈ remotePipeParseIPv4 text,
      natBytes 4 address = (fields text).map fun f => UInt8.ofNat (octetValue f) := by
    intro address haddress
    rw [remotePipeParseIPv4_eq] at haddress
    split at haddress
    · rename_i h
      cases haddress
      have hle : ∀ octet ∈ (fields text).map octetValue, octet ≤ 255 := by
        intro octet hoctet
        obtain ⟨field, hfield, rfl⟩ := List.mem_map.mp hoctet
        exact (h.2 field hfield).2
      rw [natBytes_octets (by rw [List.length_map, h.1]) hle, List.map_map]
      rfl
    · cases haddress
  rw [ParsedRight, haccepts]
  constructor
  · rintro ⟨hquad, -, -⟩ ⟨hlength, hbounded, hempty⟩
    exact ((hquad.mp ⟨hlength, hbounded⟩).2 [] hempty).1 rfl
  · intro hnone
    refine ⟨⟨fun h => ⟨h.1, fun field hfield => ⟨?_, h.2 field hfield⟩⟩, fun h => ?_⟩, hbytes,
      noOverflow text⟩
    · rintro rfl
      exact hnone ⟨h.1, h.2, hfield⟩
    · exact ⟨h.1, fun field hfield => (h.2 field hfield).2⟩

/-- Three dots alone are taken for an address. -/
theorem three_dots_accepted : ¬ParsedRight [dot, dot, dot] := by
  intro h
  have hsome : (remotePipeParseIPv4 [dot, dot, dot]).isSome = true := by decide
  have hfields : fields [dot, dot, dot] = [[], [], [], []] := by decide
  have hquad := (h.1.mp hsome).2
  rw [hfields] at hquad
  exact (hquad [] List.mem_cons_self).1 rfl

end Ipv4

end ChipSystemSim
