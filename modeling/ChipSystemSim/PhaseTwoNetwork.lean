import ChipSystemSim.PhaseTwoCounterfactual

/-! The constructor of the Phase-2 simulator: one `/30` network for each edge of the
topology, and the address under which a node is written to. -/

namespace ChipSystemSim

/-- A device of a point-to-point link. -/
structure Interface where
  link : Nat
  node : Nat
  address : Nat
  deriving DecidableEq, Repr

/-- What the constructor builds. An address that is not assigned is the default one, which
no device gets. -/
structure Ns3Network where
  interfaces : List Interface
  nodeAddresses : Nat → Option Nat

def octets (a b c d : Nat) : Nat := ((a * 256 + b) * 256 + c) * 256 + d

/-- The base of the network of a link. -/
def subnetBase (subnet : Nat) : Nat := octets 10 (subnet / 254 + 1) (subnet % 254 + 1) 0

def linkMask : Nat := octets 255 255 255 252

/-- `Ipv4AddressHelper` of ns-3: the addresses of two devices after `SetBase(network, mask)`. -/
abbrev AddressHelper := Nat → Nat → Nat × Nat

/-- The helper numbers the hosts of a network from 1 on. -/
def AddressHelper.NumbersFromOne (helper : AddressHelper) : Prop :=
  ∀ network, network % 4 = 0 → helper network linkMask = (network + 1, network + 2)

/-- `if (node_addresses_[node] == Ipv4Address()) node_addresses_[node] = address`. -/
def Ns3Network.setAddress (net : Ns3Network) (node address : Nat) : Ns3Network :=
  match net.nodeAddresses node with
  | some _ => net
  | none => { net with nodeAddresses := Function.update net.nodeAddresses node (some address) }

section Construction

variable (helper : AddressHelper)

/-- `Assign` on the two devices of a link. -/
def assigned (subnet : Nat) : Nat × Nat := helper (subnetBase subnet) linkMask

def linkInterfaces (subnet : Nat) (edge : Nat × Nat) : List Interface :=
  [⟨subnet, edge.1, (assigned helper subnet).1⟩, ⟨subnet, edge.2, (assigned helper subnet).2⟩]

def Ns3Network.install (net : Ns3Network) (subnet : Nat) (edge : Nat × Nat) : Ns3Network :=
  { net with interfaces := net.interfaces ++ linkInterfaces helper subnet edge }

def Ns3Network.link (net : Ns3Network) (subnet : Nat) (edge : Nat × Nat) : Ns3Network :=
  ((net.install helper subnet edge).setAddress edge.1 (assigned helper subnet).1).setAddress edge.2
    (assigned helper subnet).2

def addLinks (nodes : Nat) : Nat → List (Nat × Nat) → Ns3Network → Except String Ns3Network
  | _, [], net => .ok net
  | subnet, edge :: rest, net =>
    if nodes ≤ edge.1 ∨ nodes ≤ edge.2 then .error "topology edge references a node outside --nodes"
    else if 254 * 254 ≤ subnet then .error "topology has too many point-to-point links"
    else addLinks nodes (subnet + 1) rest (net.link helper subnet edge)

end Construction

def checkConnected (net : Ns3Network) : List Nat → Except String Unit
  | [] => .ok ()
  | node :: rest =>
    match net.nodeAddresses node with
    | none => .error ("topology leaves node " ++ toString node ++ " disconnected")
    | some _ => checkConnected net rest

def checkBench (nodes : Nat) : List BenchRecord → Except String Unit
  | [] => .ok ()
  | record :: rest =>
    if nodes ≤ record.source ∨ nodes ≤ record.destination then
      .error "bench record references a node outside --nodes"
    else checkBench nodes rest

def PhaseTwoArguments.network (helper : AddressHelper) (a : PhaseTwoArguments) :
    Except String Ns3Network :=
  if a.nodes = 0 then .error "--nodes must be positive"
  else do
    let net ← addLinks helper a.nodes 0 a.edges ⟨[], fun _ => none⟩
    checkConnected net (List.range a.nodes)
    checkBench a.nodes a.bench
    return net

/-- The node that owns an address. -/
def Ns3Network.owner (net : Ns3Network) (address : Nat) : Option Nat :=
  (net.interfaces.find? fun i => i.address = address).map Interface.node

def edgeInterfaces (helper : AddressHelper) (start : Nat) (edges : List (Nat × Nat)) :
    List Interface :=
  (edges.zipIdx start).flatMap fun e => linkInterfaces helper e.2 e.1

def firstAddress (interfaces : List Interface) (node : Nat) : Option Nat :=
  (interfaces.find? fun i => i.node = node).map Interface.address

variable {helper : AddressHelper}

theorem setAddress_first {net : Ns3Network} {known : List Interface}
    (h : ∀ n, net.nodeAddresses n = firstAddress known n) (i : Interface) (n : Nat) :
    (net.setAddress i.node i.address).nodeAddresses n = firstAddress (known ++ [i]) n := by
  have happend : firstAddress (known ++ [i]) n =
      (firstAddress known n).or (if i.node = n then some i.address else none) := by
    simp only [firstAddress, List.find?_append, Option.map_or, List.find?_singleton,
      decide_eq_true_eq]
    split <;> rfl
  rw [happend, ← h n]
  unfold Ns3Network.setAddress
  by_cases hn : i.node = n
  · subst hn
    cases hs : net.nodeAddresses i.node <;> simp [hs]
  · cases hs : net.nodeAddresses i.node with
    | some a => simp [hn]
    | none => simp [hn, Function.update_of_ne (Ne.symm hn)]

theorem link_first {net : Ns3Network} {known : List Interface}
    (h : ∀ n, net.nodeAddresses n = firstAddress known n) (subnet : Nat)
    (edge : Nat × Nat) (n : Nat) :
    (net.link helper subnet edge).nodeAddresses n =
      firstAddress (known ++ linkInterfaces helper subnet edge) n := by
  have hinstall : ∀ n, (net.install helper subnet edge).nodeAddresses n = firstAddress known n := h
  have hfirst := setAddress_first hinstall ⟨subnet, edge.1, (assigned helper subnet).1⟩
  have hsecond := setAddress_first hfirst ⟨subnet, edge.2, (assigned helper subnet).2⟩ n
  rwa [List.append_assoc] at hsecond

theorem setAddress_interfaces (net : Ns3Network) (node address : Nat) :
    (net.setAddress node address).interfaces = net.interfaces := by
  unfold Ns3Network.setAddress
  split <;> rfl

theorem link_interfaces (net : Ns3Network) (subnet : Nat) (edge : Nat × Nat) :
    (net.link helper subnet edge).interfaces = net.interfaces ++
      linkInterfaces helper subnet edge := by
  rw [Ns3Network.link, setAddress_interfaces, setAddress_interfaces, Ns3Network.install]

theorem addLinks_ok {nodes start : Nat} {edges : List (Nat × Nat)} {net result : Ns3Network}
    (h : addLinks helper nodes start edges net = .ok result)
    (hfirst : ∀ n, net.nodeAddresses n = firstAddress net.interfaces n) :
    result.interfaces = net.interfaces ++ edgeInterfaces helper start edges ∧
      (∀ n, result.nodeAddresses n = firstAddress result.interfaces n) ∧
      ∀ e ∈ edges.zipIdx start, e.1.1 < nodes ∧ e.1.2 < nodes ∧ e.2 < 254 * 254 := by
  induction edges generalizing start net with
  | nil =>
    rw [← Except.ok.inj h]
    exact ⟨(List.append_nil _).symm, hfirst, fun e he => by cases he⟩
  | cons edge rest ih =>
    simp only [addLinks] at h
    split at h
    · cases h
    · rename_i hnodes
      split at h
      · cases h
      · rename_i hsubnet
        have hlink : ∀ n, (net.link helper start edge).nodeAddresses n =
            firstAddress (net.link helper start edge).interfaces n := by
          intro n
          rw [link_interfaces]
          exact link_first hfirst start edge n
        obtain ⟨hinterfaces, haddresses, hrange⟩ := ih h hlink
        refine ⟨?_, haddresses, ?_⟩
        · rw [hinterfaces, link_interfaces, List.append_assoc]
          rfl
        · intro e he
          rw [List.zipIdx_cons] at he
          rcases List.mem_cons.mp he with rfl | he
          · obtain ⟨hleft, hright⟩ := not_or.mp hnodes
            exact ⟨Nat.lt_of_not_le hleft, Nat.lt_of_not_le hright, Nat.lt_of_not_le hsubnet⟩
          · exact hrange e he

theorem subnetBase_lt {k l : Nat} (h : k < l) : subnetBase k + 256 ≤ subnetBase l := by
  unfold subnetBase octets
  omega

theorem assigned_eq (hhelper : helper.NumbersFromOne) (subnet : Nat) :
    assigned helper subnet = (subnetBase subnet + 1, subnetBase subnet + 2) :=
  hhelper (subnetBase subnet) (by unfold subnetBase octets; omega)

theorem mem_edgeInterfaces {start : Nat} {edges : List (Nat × Nat)} {i : Interface}
    (h : i ∈ edgeInterfaces helper start edges) :
    ∃ e ∈ edges.zipIdx start, i.link = e.2 ∧
      ((i.node = e.1.1 ∧ i.address = (assigned helper e.2).1) ∨
        (i.node = e.1.2 ∧ i.address = (assigned helper e.2).2)) := by
  obtain ⟨e, he, hi⟩ := List.mem_flatMap.mp h
  refine ⟨e, he, ?_⟩
  simp only [linkInterfaces, List.mem_cons, List.not_mem_nil, or_false] at hi
  rcases hi with rfl | rfl
  · exact ⟨rfl, Or.inl ⟨rfl, rfl⟩⟩
  · exact ⟨rfl, Or.inr ⟨rfl, rfl⟩⟩

/-- The interfaces of a link are those that were installed for it. -/
theorem filter_edgeInterfaces {start k : Nat} {edges : List (Nat × Nat)} {edge : Nat × Nat}
    (h : edges[k]? = some edge) :
    (edgeInterfaces helper start edges).filter (fun i => i.link = start + k) =
      linkInterfaces helper (start + k) edge := by
  induction edges generalizing start k with
  | nil => cases h
  | cons first rest ih =>
    have hsplit : edgeInterfaces helper start (first :: rest) =
        linkInterfaces helper start first ++ edgeInterfaces helper (start + 1) rest := rfl
    rw [hsplit, List.filter_append]
    cases k with
    | zero =>
      cases h
      have hlater : (edgeInterfaces helper (start + 1) rest).filter
          (fun i => i.link = start) = [] := by
        refine List.filter_eq_nil_iff.mpr fun i hi => ?_
        obtain ⟨e, he, hlink, -⟩ := mem_edgeInterfaces hi
        have hle := List.le_snd_of_mem_zipIdx he
        simp only [decide_eq_true_eq]
        omega
      rw [Nat.add_zero, hlater, List.append_nil]
      simp [linkInterfaces]
    | succ k =>
      have hfirst : (linkInterfaces helper start first).filter
        (fun i => i.link = start + (k + 1)) = [] := by
        simp [linkInterfaces]
      have hnext : start + (k + 1) = start + 1 + k := by omega
      rw [hfirst, List.nil_append, hnext]
      exact ih h

/-- The addresses grow along the list of interfaces. -/
theorem addresses_increase (hhelper : helper.NumbersFromOne) (start : Nat)
    (edges : List (Nat × Nat)) :
    (edgeInterfaces helper start edges).Pairwise fun i j => i.address < j.address := by
  induction edges generalizing start with
  | nil => exact List.Pairwise.nil
  | cons edge rest ih =>
    have hfirst := assigned_eq hhelper start
    have hlater : ∀ j ∈ edgeInterfaces helper (start + 1) rest, subnetBase start +
        2 < j.address := by
      intro j hj
      obtain ⟨e, he, _, haddress⟩ := mem_edgeInterfaces hj
      rw [assigned_eq hhelper] at haddress
      have hlink := subnetBase_lt (List.le_snd_of_mem_zipIdx he)
      rcases haddress with ⟨_, haddress⟩ | ⟨_, haddress⟩ <;> omega
    refine List.pairwise_cons.mpr ⟨?_, List.pairwise_cons.mpr ⟨?_, ih (start + 1)⟩⟩
    · intro j hj
      rw [hfirst]
      rcases List.mem_cons.mp hj with rfl | hj
      · rw [hfirst]
        exact Nat.lt_succ_self _
      · exact Nat.lt_trans (Nat.lt_succ_self _) (hlater j hj)
    · intro j hj
      rw [hfirst]
      exact hlater j hj

theorem checkConnected_ok_iff {net : Ns3Network} {nodes : List Nat} :
    checkConnected net nodes = .ok () ↔ ∀ node ∈ nodes, ∃ address,
      net.nodeAddresses node = some address := by
  induction nodes with
  | nil => simp [checkConnected]
  | cons node rest ih =>
    cases hn : net.nodeAddresses node with
    | none => simp [checkConnected, hn]
    | some address => simp [checkConnected, hn, ih]

theorem checkBench_ok_iff {nodes : Nat} {bench : List BenchRecord} :
    checkBench nodes bench = .ok () ↔ ∀ record ∈ bench, record.source < nodes ∧
    record.destination < nodes := by
  induction bench with
  | nil => simp [checkBench]
  | cons record rest ih =>
    by_cases hr : nodes ≤ record.source ∨ nodes ≤ record.destination
    · simp only [checkBench, hr, if_true, List.forall_mem_cons]
      constructor
      · intro h
        cases h
      · rintro ⟨_, _⟩
        omega
    · simp only [checkBench, hr, if_false, ih, List.forall_mem_cons]
      constructor
      · exact fun h => ⟨by omega, h⟩
      · exact fun h => h.2

section Built

variable {a : PhaseTwoArguments} {net : Ns3Network}

theorem network_ok (h : a.network helper = .ok net) :
    net.interfaces = edgeInterfaces helper 0 a.edges ∧
      (∀ n, net.nodeAddresses n = firstAddress net.interfaces n) ∧
      (∀ e ∈ a.edges.zipIdx, e.1.1 < a.nodes ∧ e.1.2 < a.nodes ∧ e.2 < 254 * 254) ∧
      (∀ node < a.nodes, ∃ address, net.nodeAddresses node = some address) ∧
      ∀ record ∈ a.bench, record.source < a.nodes ∧ record.destination < a.nodes := by
  unfold PhaseTwoArguments.network at h
  split at h
  · cases h
  · cases hlinks : addLinks helper a.nodes 0 a.edges ⟨[], fun _ => none⟩ with
    | error e => simp [hlinks, bind, Except.bind] at h
    | ok built =>
      cases hconnected : checkConnected built (List.range a.nodes) with
      | error e => simp [hlinks, hconnected, bind, Except.bind] at h
      | ok _ =>
        cases hbench : checkBench a.nodes a.bench with
        | error e => simp [hlinks, hconnected, hbench, bind, Except.bind] at h
        | ok _ =>
          simp only [hlinks, hconnected, hbench, bind, Except.bind, pure, Except.pure,
            Except.ok.injEq] at h
          subst h
          obtain ⟨hinterfaces, hfirst, hrange⟩ := addLinks_ok hlinks fun _ => rfl
          refine ⟨by simpa using hinterfaces, hfirst, hrange, ?_, checkBench_ok_iff.mp hbench⟩
          intro node hnode
          exact checkConnected_ok_iff.mp hconnected node (List.mem_range.mpr hnode)

theorem addresses_nodup (hhelper : helper.NumbersFromOne) (h : a.network helper = .ok net) :
    (net.interfaces.map Interface.address).Nodup := by
  rw [(network_ok h).1]
  exact List.pairwise_map.mpr ((addresses_increase hhelper 0 a.edges).imp Nat.ne_of_lt)

theorem owner_of_mem (hhelper : helper.NumbersFromOne) {i : Interface}
    (h : a.network helper = .ok net) (hi : i ∈ net.interfaces) :
    net.owner i.address = some i.node := by
  have hfind : net.interfaces.find? (fun j => j.address = i.address) = some i := by
    cases hf : net.interfaces.find? (fun j => j.address = i.address) with
    | none => exact absurd (List.find?_eq_none.mp hf i hi) (by simp)
    | some j =>
      have haddress : j.address = i.address := by simpa using List.find?_some hf
      rw [List.inj_on_of_nodup_map (addresses_nodup hhelper h) (List.mem_of_find?_eq_some hf)
        hi haddress]
  rw [Ns3Network.owner, hfind, Option.map_some]

theorem address_owned (h : a.network helper = .ok net) {node : Nat} (hnode : node < a.nodes) :
    ∃ i ∈ net.interfaces, i.node = node ∧ net.nodeAddresses node = some i.address := by
  obtain ⟨_, hfirst, _, hconnected, _⟩ := network_ok h
  obtain ⟨address, haddress⟩ := hconnected node hnode
  have hfound := hfirst node
  rw [haddress, firstAddress] at hfound
  obtain ⟨i, hi, rfl⟩ := Option.map_eq_some_iff.mp hfound.symm
  exact ⟨i, List.mem_of_find?_eq_some hi, by simpa using List.find?_some hi, haddress⟩

theorem interface_range (hhelper : helper.NumbersFromOne) (h : a.network helper = .ok net)
    {i : Interface} (hi : i ∈ net.interfaces) :
    i.link < 254 * 254 ∧ i.node < a.nodes ∧
      (i.address = subnetBase i.link + 1 ∨ i.address = subnetBase i.link + 2) ∧
      ∃ edge, a.edges[i.link]? = some edge ∧ (i.node = edge.1 ∨ i.node = edge.2) := by
  obtain ⟨hinterfaces, _, hrange, _⟩ := network_ok h
  rw [hinterfaces] at hi
  obtain ⟨e, he, hlink, hside⟩ := mem_edgeInterfaces hi
  rw [assigned_eq hhelper] at hside
  obtain ⟨hleft, hright, hlt⟩ := hrange e he
  have hedge := List.mem_zipIdx_iff_getElem?.mp he
  rcases hside with ⟨hnode, haddress⟩ | ⟨hnode, haddress⟩
  · exact ⟨by omega, by omega, Or.inl (by rw [haddress, hlink]), e.1, by rw [hlink, hedge],
      Or.inl hnode⟩
  · exact ⟨by omega, by omega, Or.inr (by rw [haddress, hlink]), e.1, by rw [hlink, hedge],
      Or.inr hnode⟩

/-- A link has two interfaces, the first at its first end and the second at its second. -/
theorem link_has_ends (hhelper : helper.NumbersFromOne) (h : a.network helper = .ok net) {k : Nat}
    {edge : Nat × Nat} (hk : a.edges[k]? = some edge) :
    k < 254 * 254 ∧ net.interfaces.filter (fun i => i.link = k) =
      [⟨k, edge.1, subnetBase k + 1⟩, ⟨k, edge.2, subnetBase k + 2⟩] := by
  obtain ⟨hinterfaces, _, hrange, _⟩ := network_ok h
  refine ⟨(hrange (edge, k) (List.mem_zipIdx_iff_getElem?.mpr hk)).2.2, ?_⟩
  have hlink : (edgeInterfaces helper 0 a.edges).filter (fun i => i.link = 0 + k) =
      linkInterfaces helper (0 + k) edge := filter_edgeInterfaces hk
  rw [Nat.zero_add] at hlink
  rw [hinterfaces, hlink, linkInterfaces, assigned_eq hhelper]

end Built

theorem addLinks_forM {nodes start : Nat} {edges : List (Nat × Nat)} {net : Ns3Network} :
    ((addLinks helper nodes start edges net).map fun _ => ()) = (edges.zipIdx start).forM fun e =>
      if nodes ≤ e.1.1 ∨ nodes ≤ e.1.2 then throw "topology edge references a node outside --nodes"
      else if 254 * 254 ≤ e.2 then throw "topology has too many point-to-point links"
      else pure () := by
  induction edges generalizing start net with
  | nil => rfl
  | cons edge rest ih =>
    rw [List.zipIdx_cons, List.forM, addLinks]
    split
    · rfl
    · split
      · rfl
      · exact ih

theorem checkBench_forM {nodes : Nat} {bench : List BenchRecord} :
    checkBench nodes bench = bench.forM fun record =>
      if nodes ≤ record.source ∨ nodes ≤ record.destination then
        throw "bench record references a node outside --nodes"
      else pure () := by
  induction bench with
  | nil => rfl
  | cons record rest ih =>
    rw [List.forM, checkBench]
    split
    · rfl
    · exact ih

theorem checkConnected_forM {net : Ns3Network} {edges : List (Nat × Nat)} {nodes : List Nat}
    (h : ∀ node, net.nodeAddresses node = none ↔
      (edges.any fun edge => edge.1 == node || edge.2 == node) = false) :
    checkConnected net nodes = nodes.forM fun node =>
      if edges.any fun edge => edge.1 == node || edge.2 == node then pure ()
      else throw ("topology leaves node " ++ toString node ++ " disconnected") := by
  induction nodes with
  | nil => rfl
  | cons node rest ih =>
    rw [List.forM, checkConnected]
    cases hn : net.nodeAddresses node with
    | none =>
      rw [if_neg (by simp [(h node).mp hn])]
      rfl
    | some address =>
      have hany : (edges.any fun edge => edge.1 == node || edge.2 == node) = true := by
        by_contra hfalse
        rw [(h node).mpr (by simpa using hfalse)] at hn
        cases hn
      rw [if_pos hany]
      exact ih

theorem firstAddress_eq_none_iff {edges : List (Nat × Nat)} {node : Nat} :
    firstAddress (edgeInterfaces helper 0 edges) node = none ↔
      (edges.any fun edge => edge.1 == node || edge.2 == node) = false := by
  rw [firstAddress, Option.map_eq_none_iff, List.find?_eq_none, List.any_eq_false]
  constructor
  · intro h edge hedge
    obtain ⟨k, hk⟩ := List.getElem?_of_mem hedge
    have hmem : ∀ i ∈ linkInterfaces helper k edge, i ∈ edgeInterfaces helper 0 edges := fun i hi =>
      List.mem_flatMap.mpr ⟨(edge, k), List.mk_mem_zipIdx_iff_getElem?.mpr hk, hi⟩
    have hleft := h _ (hmem _ List.mem_cons_self)
    have hright := h _ (hmem _ (List.mem_cons_of_mem _ List.mem_cons_self))
    simp only [decide_eq_true_eq] at hleft hright
    simp [hleft, hright]
  · intro h i hi
    obtain ⟨e, he, _, hside⟩ := mem_edgeInterfaces hi
    have hneither := h e.1 (List.fst_mem_of_mem_zipIdx he)
    simp only [Bool.or_eq_true, beq_iff_eq, not_or] at hneither
    rcases hside with ⟨hnode, _⟩ | ⟨hnode, _⟩
    · simpa [hnode] using hneither.1
    · simpa [hnode] using hneither.2

theorem check_eq {a : PhaseTwoArguments} (hnodes : a.nodes ≠ 0) {connected : Except String Unit}
    (h : connected = (List.range a.nodes).forM fun node =>
      if a.edges.any fun edge => edge.1 == node || edge.2 == node then pure ()
      else throw ("topology leaves node " ++ toString node ++ " disconnected")) (net : Ns3Network) :
    a.check = ((addLinks helper a.nodes 0 a.edges net).map fun _ => ()).bind fun _ =>
      connected.bind fun _ => checkBench a.nodes a.bench := by
  rw [addLinks_forM, checkBench_forM, h, PhaseTwoArguments.check, if_neg hnodes]
  rfl

/-- The checks of the constructor by themselves fail where it fails, and with its message. -/
theorem network_check (helper : AddressHelper) (a : PhaseTwoArguments) :
    ((a.network helper).map fun _ => ()) = a.check := by
  by_cases hnodes : a.nodes = 0
  · rw [PhaseTwoArguments.network, if_pos hnodes, PhaseTwoArguments.check, if_pos hnodes]
    rfl
  · rw [check_eq hnodes rfl ⟨[], fun _ => none⟩, PhaseTwoArguments.network, if_neg hnodes]
    cases hlinks : addLinks helper a.nodes 0 a.edges ⟨[], fun _ => none⟩ with
    | error e => rfl
    | ok net =>
      obtain ⟨hinterfaces, hfirst, _⟩ := addLinks_ok hlinks fun _ => rfl
      have hconnected : checkConnected net (List.range a.nodes) = _ :=
        checkConnected_forM fun node => by
        rw [hfirst, hinterfaces, List.nil_append]
        exact firstAddress_eq_none_iff
      simp only [bind, Except.bind, Except.map, ← hconnected]
      cases checkConnected net (List.range a.nodes) with
      | error e => rfl
      | ok _ => cases checkBench a.nodes a.bench <;> rfl

/-- Where the checks pass, every link has a `/30` of its own below `10.255.0.0`, whose first
host address is that of its first end and whose second one is that of its second end. No
interface has another address, and the address under which a node is written to belongs to
this node and to no other. -/
theorem network_addresses_unambiguous {helper : AddressHelper} (hhelper : helper.NumbersFromOne)
    {a : PhaseTwoArguments} (hcheck : a.check = .ok ()) :
    ∃ net, a.network helper = .ok net ∧
      (∀ k edge, a.edges[k]? = some edge → ∃ b c, 1 ≤ b ∧ b ≤ 254 ∧ 1 ≤ c ∧ c ≤ 254 ∧
        net.interfaces.filter (fun i => i.link = k) =
          [⟨k, edge.1, octets 10 b c 1⟩, ⟨k, edge.2, octets 10 b c 2⟩]) ∧
      (∀ i ∈ net.interfaces, i.node < a.nodes ∧
        ∃ edge, a.edges[i.link]? = some edge ∧ (i.node = edge.1 ∨ i.node = edge.2)) ∧
      (∀ i ∈ net.interfaces, ∀ j ∈ net.interfaces, i.address / 4 = j.address / 4 →
        i.link = j.link) ∧
      (net.interfaces.map Interface.address).Nodup ∧
      ∀ node < a.nodes, ∃ address, net.nodeAddresses node = some address ∧
        net.owner address = some node := by
  rw [← network_check helper] at hcheck
  cases h : a.network helper with
  | error e =>
    rw [h] at hcheck
    cases hcheck
  | ok net =>
    refine ⟨net, rfl, ?_, ?_, ?_, addresses_nodup hhelper h, ?_⟩
    · intro k edge hk
      obtain ⟨hlt, hends⟩ := link_has_ends hhelper h hk
      refine ⟨k / 254 + 1, k % 254 + 1, by omega, by omega, by omega, by omega, ?_⟩
      simpa only [subnetBase, octets, Nat.add_zero] using hends
    · intro i hi
      obtain ⟨_, hnode, _, hedge⟩ := interface_range hhelper h hi
      exact ⟨hnode, hedge⟩
    · intro i hi j hj hsame
      obtain ⟨_, _, hi, _⟩ := interface_range hhelper h hi
      obtain ⟨_, _, hj, _⟩ := interface_range hhelper h hj
      unfold subnetBase octets at hi hj
      omega
    · intro node hnode
      obtain ⟨i, hi, rfl, haddress⟩ := address_owned h hnode
      exact ⟨i.address, haddress, owner_of_mem hhelper h hi⟩

def chainArguments : PhaseTwoArguments where
  bench := [⟨0, 0, 0, 2, 1, 0⟩]
  edges := [(0, 1), (1, 2)]
  nodes := 3
  cycleNs := 1
  flitBytes := 32
  maxDatagramBytes := 1400
  linkRate := "128Gbps"
  linkDelayNs := 1
  workerRouting := none
  localizeCrossWorkerNetwork := false

theorem network_addresses_unambiguous_chain :
    ∃ net, chainArguments.network (fun network _ => (network + 1, network + 2)) = .ok net ∧
      net.interfaces.filter (fun i => i.link = 1) =
        [⟨1, 1, octets 10 1 2 1⟩, ⟨1, 2, octets 10 1 2 2⟩] ∧
      net.nodeAddresses 1 = some (octets 10 1 1 2) ∧ net.owner (octets 10 1 1 2) = some 1 := by
  have hhelper : AddressHelper.NumbersFromOne fun network _ => (network + 1, network + 2) :=
    fun _ _ => rfl
  obtain ⟨net, hnet, hends, _, _, _, howned⟩ := network_addresses_unambiguous hhelper
    (show chainArguments.check = .ok () from rfl)
  have hbuilt := Except.ok.inj hnet
  have haddress : net.nodeAddresses 1 = some (octets 10 1 1 2) := by
    rw [← hbuilt]
    rfl
  obtain ⟨address, ha, howner⟩ := howned 1 (by decide)
  rw [haddress, Option.some.injEq] at ha
  refine ⟨net, hnet, ?_, haddress, ha ▸ howner⟩
  rw [← hbuilt]
  decide

end ChipSystemSim
