import Mathlib.Order.Nat

/-!
# The ketama ring

`Ring` assigns keys to servers by consistent hashing.  Every server puts points on a ring of 32-bit
numbers, and a key goes to the server whose point is the first at or above the hash of the key, with
a wrap to the smallest point of all.

`IsNext ps h p` says that `p` is that point, of the points `ps` in whatever order.  The binary
search of `route` finds it because `build` has sorted the points (`exists_isNext_findIdx`), and a
point that comes next among more points is either one of the new ones, or it came next before
(`IsNext.of_append`).  This is all that is behind the promise of consistent hashing, that a new
server takes keys only to itself.

`sort_unstable_by_key` may leave points with equal hashes in any order, so the results are about
every ring that `Built` allows, and `build` makes one of them.  Nothing depends on what MD5 computes:
it is a parameter here.  Identities are strings, that is, their UTF-8 bytes.  The number of a server
and the number of servers are cast to `u16`: with 65536 servers `node_count` is 0 and every key goes
to the first one, so a ring has to have fewer.
-/

set_option autoImplicit false

namespace Ringline.Ketama

/-! ## The next point -/

section

variable {α : Type} {ps qs : List (Nat × α)} {h : Nat} {p : Nat × α}

/-- The smallest point at or above `h`, or the smallest of all if there is none. -/
structure IsNext (ps : List (Nat × α)) (h : Nat) (p : Nat × α) : Prop where
  mem : p ∈ ps
  least : (h ≤ p.1 ∧ ∀ q ∈ ps, h ≤ q.1 → p.1 ≤ q.1) ∨
    (∀ q ∈ ps, q.1 < h) ∧ ∀ q ∈ ps, p.1 ≤ q.1

/-- The order of the points does not matter. -/
theorem IsNext.perm (hp : IsNext ps h p) (hperm : ps.Perm qs) : IsNext qs h p := by
  obtain ⟨hmem, hleast⟩ := hp
  simp only [hperm.mem_iff] at hmem hleast
  exact ⟨hmem, hleast⟩

/-- **The search in a sorted list**, with the wrap. -/
theorem exists_isNext_findIdx (hne : ps ≠ []) (hsorted : ps.Pairwise (·.1 ≤ ·.1)) (h : Nat) :
    ∃ p, IsNext ps h p ∧
      ps[if ps.findIdx (h ≤ ·.1) = ps.length then 0 else ps.findIdx (h ≤ ·.1)]? = some p := by
  split
  · rename_i hidx
    obtain ⟨p, rest, rfl⟩ := List.exists_cons_of_ne_nil hne
    have hbelow : ∀ q ∈ p :: rest, q.1 < h := by simpa using List.findIdx_eq_length.mp hidx
    have hleast : ∀ q ∈ p :: rest, p.1 ≤ q.1 := by
      simpa using fun a b hq => List.rel_of_pairwise_cons hsorted hq
    exact ⟨p, ⟨List.mem_cons_self, .inr ⟨hbelow, hleast⟩⟩, rfl⟩
  · rename_i hidx
    have hlt := lt_of_le_of_ne List.findIdx_le_length hidx
    refine ⟨_, ⟨List.getElem_mem hlt, .inl ⟨?_, fun q hq hle => ?_⟩⟩, List.getElem?_eq_getElem hlt⟩
    · simpa using List.findIdx_getElem (w := hlt)
    · -- every point before the one that is found is below `h`
      obtain ⟨j, hj, rfl⟩ := List.getElem_of_mem hq
      rcases Nat.lt_or_ge j (ps.findIdx (h ≤ ·.1)) with hbefore | hafter
      · exact absurd hle (by simpa using List.not_of_lt_findIdx hbefore)
      · rcases hafter.eq_or_lt with heq | hafter
        · simp only [heq, le_refl]
        · exact List.pairwise_iff_getElem.mp hsorted _ j hlt hj hafter

/-- More points: the next one is new, or it is the one that was next before. -/
theorem IsNext.of_append (hp : IsNext (ps ++ qs) h p) : p ∈ qs ∨ IsNext ps h p := by
  obtain ⟨hmem, hleast⟩ := hp
  refine (List.mem_append.mp hmem).symm.imp_right fun hmem => ⟨hmem, hleast.imp ?_ ?_⟩
  · exact fun ⟨hle, hall⟩ => ⟨hle, fun q hq => hall q (List.mem_append_left _ hq)⟩
  · exact fun ⟨hbelow, hall⟩ => ⟨fun q hq => hbelow q (List.mem_append_left _ hq),
      fun q hq => hall q (List.mem_append_left _ hq)⟩

/-- There is one next hash. -/
theorem IsNext.fst_eq {q : Nat × α} (hp : IsNext ps h p) (hq : IsNext ps h q) : p.1 = q.1 := by
  rcases hp.least with ⟨hle, hleast⟩ | ⟨hbelow, hleast⟩ <;>
    rcases hq.least with ⟨hle', hleast'⟩ | ⟨hbelow', hleast'⟩
  · exact le_antisymm (hleast q hq.mem hle') (hleast' p hp.mem hle)
  · exact absurd (hbelow' p hp.mem) (not_lt.mpr hle)
  · exact absurd (hbelow q hq.mem) (not_lt.mpr hle')
  · exact le_antisymm (hleast q hq.mem) (hleast' p hp.mem)

end

/-! ## The ring -/

abbrev Bytes := List UInt8

abbrev Digest := Fin 16 → UInt8

/-- An identity and its weight. -/
abbrev Node := Bytes × Nat

structure Ring where
  /-- Hashes and the servers they belong to. -/
  points : List (Nat × Nat)
  nodeCount : Nat

variable (md5 : Bytes → Digest)

/-- `u32::from_le_bytes` of the bytes from `4 * j` on. -/
def word (digest : Digest) (j : Fin 4) : Nat :=
  (digest ⟨4 * j, by omega⟩).toNat + (digest ⟨4 * j + 1, by omega⟩).toNat * 256 +
    (digest ⟨4 * j + 2, by omega⟩).toNat * 65536 + (digest ⟨4 * j + 3, by omega⟩).toNat * 16777216

/-- `format!("{identity}-{i}")`. -/
def pointKey (identity : Bytes) (i : Nat) : Bytes :=
  identity ++ 45 :: (Nat.toDigits 10 i).map fun c => .ofNat c.toNat

/-- The hashes of one server, four from each digest. -/
def hashes (node : Node) : List Nat :=
  (List.range (160 * node.2 / 4)).flatMap fun i =>
    (List.finRange 4).map (word (md5 (pointKey node.1 i)))

/-- The points of all servers, as `build` collects them. -/
def points (nodes : List Node) : List (Nat × Nat) :=
  nodes.zipIdx.flatMap fun x => (hashes md5 x.1).map fun hash => (hash, x.2 % 65536)

/-- `RingBuilder::build`; `none` is the panic of the assertion. -/
def build (nodes : List Node) : Option Ring :=
  if nodes.isEmpty then none
  else some
    { points := (points md5 nodes).mergeSort fun p q => p.1 ≤ q.1
      nodeCount := nodes.length % 65536 }

def keyHash (key : Bytes) : Nat := word (md5 key) 0

/-- `Ring::route`; `none` is an index out of bounds.  On a sorted slice `partition_point` is the
first index at which the predicate fails. -/
def Ring.route (ring : Ring) (key : Bytes) : Option Nat :=
  if ring.nodeCount ≤ 1 then some 0
  else
    let hash := keyHash md5 key
    let idx := ring.points.findIdx (hash ≤ ·.1)
    let idx := if idx = ring.points.length then 0 else idx
    ring.points[idx]?.map (·.2)

/-- What `build` makes, wherever the sort leaves points with the same hash. -/
structure Built (nodes : List Node) (ring : Ring) : Prop where
  perm : ring.points.Perm (points md5 nodes)
  sorted : ring.points.Pairwise (·.1 ≤ ·.1)
  nodeCount : ring.nodeCount = nodes.length % 65536

theorem built_build {nodes : List Node} {ring : Ring} (h : build md5 nodes = some ring) :
    Built md5 nodes ring := by
  rw [build] at h
  split at h
  · cases h
  · cases h
    refine ⟨List.mergeSort_perm _ _, ?_, rfl⟩
    refine List.Pairwise.imp of_decide_eq_true (List.pairwise_mergeSort ?_ ?_ _)
    · intro p q r hpq hqr
      simp only [decide_eq_true_eq] at hpq hqr ⊢
      exact le_trans hpq hqr
    · intro p q
      simpa using le_total p.1 q.1

/-- 1 to 65535 servers of positive weights, without a hash that two of them share. -/
structure Proper (nodes : List Node) : Prop where
  nonempty : nodes ≠ []
  length_lt : nodes.length < 65536
  weight_pos : ∀ node ∈ nodes, 0 < node.2
  owner : ∀ p ∈ points md5 nodes, ∀ q ∈ points md5 nodes, p.1 = q.1 → p.2 = q.2

variable {md5} {nodes : List Node} {ring : Ring}

theorem mem_points {p : Nat × Nat} (h : p ∈ points md5 nodes) :
    ∃ i node, nodes[i]? = some node ∧ p.1 ∈ hashes md5 node ∧ p.2 = i % 65536 := by
  obtain ⟨⟨node, i⟩, hx, hp⟩ := List.mem_flatMap.mp h
  obtain ⟨hash, hhash, rfl⟩ := List.mem_map.mp hp
  exact ⟨i, node, List.mem_zipIdx_iff_getElem?.mp hx, hhash, rfl⟩

theorem points_append (node : Node) (hlt : nodes.length < 65536) :
    points md5 (nodes ++ [node]) =
      points md5 nodes ++ (hashes md5 node).map fun hash => (hash, nodes.length) := by
  simp [points, List.zipIdx_append, Nat.mod_eq_of_lt hlt]

theorem points_ne_nil (h : Proper md5 nodes) : points md5 nodes ≠ [] := by
  obtain ⟨⟨identity, weight⟩, rest, rfl⟩ := List.exists_cons_of_ne_nil h.nonempty
  have hpos : 0 < weight := h.weight_pos _ List.mem_cons_self
  have hhashes : hashes md5 (identity, weight) ≠ [] := by
    simp only [hashes, ne_eq, List.flatMap_eq_nil_iff, List.mem_range, not_forall]
    exact ⟨0, by omega, by simp [List.finRange_succ]⟩
  simp [points, hhashes]

/-- **A key goes to the owner of the next point.** -/
theorem exists_isNext_route (h : Proper md5 nodes) (hring : Built md5 nodes ring) (key : Bytes) :
    ∃ p, IsNext (points md5 nodes) (keyHash md5 key) p ∧ ring.route md5 key = some p.2 := by
  have hne : ring.points ≠ [] := by
    intro hnil
    exact points_ne_nil h (List.nil_perm.mp (hnil ▸ hring.perm))
  obtain ⟨p, hp, hget⟩ := exists_isNext_findIdx hne hring.sorted (keyHash md5 key)
  refine ⟨p, hp.perm hring.perm, ?_⟩
  rw [Ring.route]
  split
  · -- there is one server, and it owns every point
    rename_i hcount
    rw [hring.nodeCount, Nat.mod_eq_of_lt h.length_lt] at hcount
    obtain ⟨i, node, hi, -, howner⟩ := mem_points (hring.perm.mem_iff.mp hp.mem)
    obtain ⟨hlt, -⟩ := List.getElem?_eq_some_iff.mp hi
    rw [howner, show i = 0 by omega]
  · simp only [hget, Option.map_some]

/-- **Consistent hashing.**  A key goes to the owner of the smallest point at or above its hash, or
of the smallest point of all, and one more server leaves it there or takes it. -/
theorem route_next_and_append (h : Proper md5 nodes) (hring : Built md5 nodes ring) (key : Bytes) :
    (∃ p, IsNext (points md5 nodes) (keyHash md5 key) p ∧ ring.route md5 key = some p.2 ∧
      ∀ q, IsNext (points md5 nodes) (keyHash md5 key) q → q.2 = p.2) ∧
    ∀ node ring', Proper md5 (nodes ++ [node]) → Built md5 (nodes ++ [node]) ring' →
      ring'.route md5 key = ring.route md5 key ∨ ring'.route md5 key = some nodes.length := by
  obtain ⟨p, hp, hroute⟩ := exists_isNext_route h hring key
  have howner : ∀ q, IsNext (points md5 nodes) (keyHash md5 key) q → q.2 = p.2 :=
    fun q hq => h.owner q hq.mem p hp.mem (hq.fst_eq hp)
  refine ⟨⟨p, hp, hroute, howner⟩, fun node ring' h' hring' => ?_⟩
  obtain ⟨q, hq, hroute'⟩ := exists_isNext_route h' hring' key
  rw [points_append node h.length_lt] at hq
  rcases hq.of_append with hnew | hold
  · obtain ⟨hash, -, rfl⟩ := List.mem_map.mp hnew
    exact .inr hroute'
  · left
    rw [hroute', hroute, howner q hold]

theorem mem_hashes {node : Node} {hash : Nat} (h : hash ∈ hashes md5 node) :
    ∃ i j, word (md5 (pointKey node.1 i)) j = hash := by
  obtain ⟨i, -, hi⟩ := List.mem_flatMap.mp h
  obtain ⟨j, -, hj⟩ := List.mem_map.mp hi
  exact ⟨i, j, hj⟩

/-- A hash that tells two servers apart by their first letters. -/
theorem route_next_and_append_two_servers :
    let md5 : Bytes → Digest := fun key _ => key.headD 0
    let nodes : List Node := [([97], 1), ([98], 2)]
    Proper md5 nodes ∧ ∀ key, ∀ ring ∈ build md5 nodes,
      ∃ p, IsNext (points md5 nodes) (keyHash md5 key) p ∧ ring.route md5 key = some p.2 := by
  intro md5 nodes
  have hproper : Proper md5 nodes := by
    have hpoint : ∀ p ∈ points md5 nodes, p.2 = 0 ∧ p.1 = word (fun _ => 97) 0 ∨
        p.2 = 1 ∧ p.1 = word (fun _ => 98) 0 := by
      intro p hp
      obtain ⟨i, node, hi, hhash, howner⟩ := mem_points hp
      obtain ⟨k, j, hword⟩ := mem_hashes hhash
      rcases i with _ | _ | i
      · cases hi
        exact .inl ⟨howner, hword.symm⟩
      · cases hi
        exact .inr ⟨howner, hword.symm⟩
      · cases hi
    refine ⟨List.cons_ne_nil _ _, by decide, by simp [nodes], fun p hp q hq hpq => ?_⟩
    rcases hpoint p hp with ⟨hp, hp'⟩ | ⟨hp, hp'⟩ <;>
      rcases hpoint q hq with ⟨hq, hq'⟩ | ⟨hq, hq'⟩
    · rw [hp, hq]
    · rw [hp', hq'] at hpq
      exact absurd hpq (by decide)
    · rw [hp', hq'] at hpq
      exact absurd hpq (by decide)
    · rw [hp, hq]
  refine ⟨hproper, fun key ring hring => ?_⟩
  obtain ⟨⟨p, hp, hroute, -⟩, -⟩ := route_next_and_append hproper (built_build md5 hring) key
  exact ⟨p, hp, hroute⟩

end Ringline.Ketama
