import Mathlib.Data.List.Nodup
import Mathlib.Data.List.Pairwise
import Mathlib.Tactic.Ring

/-!
# Binary tries kept in an array

A prefix code is decoded by walking a binary trie one bit at a time.  The usual representation is
an array of nodes in which a child is named by its position and position `0`, the root, doubles as
"no child".  Inserting a code walks down from the root, allocates the missing nodes at the end of
the array and finishes with a leaf.

Aliasing is what makes such a trie awkward to reason about: nothing in the array says that two
positions are not children of two different nodes.  `Inv` therefore carries, as a ghost list
`paths` parallel to the array, the path that leads to every position, and asks that no path occurs
twice.  Everything else is read off from it:

* `insertPath_inv` — inserting a code that is neither a prefix nor an extension of an inserted
  one keeps the invariant;
* `ofCodes_inv` — so building the trie of a prefix-free code does;
* `Inv.child_of_code`, `Inv.leaf_of_code` — and in a trie with the invariant a position on the way to
  an inserted code has the child for the next bit, and the end of the way is the code's own leaf.
-/

set_option autoImplicit false

namespace Ringline.ArrayTrie

open List

variable {σ : Type}

/-- A node: the positions of the two children, `0` for a missing one, or a symbol. -/
inductive Node (σ : Type) where
  /-- An internal node with its children for bit `0` and bit `1`. -/
  | internal (left right : Nat)
  /-- The end of the code of a symbol. -/
  | leaf (sym : σ)
deriving DecidableEq, Repr

/-- The child of an internal node for a bit. -/
def pick (bit : Bool) (left right : Nat) : Nat := if bit then right else left

/-- An internal node with its child for `bit` replaced. -/
def withChild (bit : Bool) (left right child : Nat) : Node σ :=
  if bit then .internal left child else .internal child right

/-- Insert the symbol `sym` under the bits that remain, standing at position `nodeIdx`.  `none` if
the walk meets a leaf, which means that an inserted code is a prefix of this one.  Positions are
`width`-bit numbers. -/
def insertPath (width : Nat) (sym : σ) :
    List Bool → Nat → Array (Node σ) → Option (Array (Node σ))
  | [], _, nodes => some nodes
  | bit :: rest, nodeIdx, nodes =>
    match nodes[nodeIdx]? with
    | some (.internal left right) =>
      let newIdx := nodes.size % 2 ^ width
      if rest.isEmpty then
        some ((nodes.push (.leaf sym)).set! nodeIdx (withChild bit left right newIdx))
      else if pick bit left right = 0 then
        insertPath width sym rest newIdx
          ((nodes.push (.internal 0 0)).set! nodeIdx (withChild bit left right newIdx))
      else
        insertPath width sym rest (pick bit left right) nodes
    | _ => none

/-- Insert a list of codes, in order, into a trie. -/
def insertCodes (width : Nat) :
    List (List Bool × σ) → Array (Node σ) → Option (Array (Node σ))
  | [], nodes => some nodes
  | (code, sym) :: codes, nodes =>
    (insertPath width sym code 0 nodes).bind (insertCodes width codes)

/-- The trie of a list of codes: the root, and the codes inserted in order. -/
def ofCodes (width : Nat) (codes : List (List Bool × σ)) : Option (Array (Node σ)) :=
  insertCodes width codes #[.internal 0 0]

/-! ## The invariant -/

/-- No code is a prefix of another one, and no code is listed for two symbols. -/
def PrefixFree (codes : List (List Bool × σ)) : Prop :=
  codes.Pairwise fun a b => ¬ a.1 <+: b.1 ∧ ¬ b.1 <+: a.1

/-- In a prefix-free list a code is a prefix of no code but itself. -/
theorem PrefixFree.eq_of_prefix {codes : List (List Bool × σ)} (h : PrefixFree codes)
    {a b : List Bool × σ} (ha : a ∈ codes) (hb : b ∈ codes) (hab : a.1 <+: b.1) : a = b := by
  by_contra hne
  have hsymm : Std.Symm fun a b : List Bool × σ => ¬ a.1 <+: b.1 ∧ ¬ b.1 <+: a.1 :=
    ⟨fun _ _ h => ⟨h.2, h.1⟩⟩
  exact (List.Pairwise.forall h ha hb hne).1 hab

/-- `paths` names the positions of `nodes`: the codes `done` have been inserted, and every other
path is on the way to one of the codes `all`. -/
structure Inv (all done : List (List Bool × σ)) (nodes : Array (Node σ))
    (paths : List (List Bool)) : Prop where
  /-- One path per node. -/
  length_eq : paths.length = nodes.size
  /-- Position `0` is the root. -/
  root : paths[0]? = some []
  /-- No two positions have the same path. -/
  nodup : paths.Nodup
  /-- A leaf is at the end of the code of its symbol. -/
  leaf_done : ∀ (i : Nat) q s, paths[i]? = some q → nodes[i]? = some (Node.leaf s) → (q, s) ∈ done
  /-- A child is at the path extended by its bit, and is missing only if that path is. -/
  child : ∀ (i : Nat) q left right bit, paths[i]? = some q →
    nodes[i]? = some (Node.internal left right) →
    (pick bit left right = 0 ∧ q ++ [bit] ∉ paths) ∨
      (pick bit left right ≠ 0 ∧ paths[pick bit left right]? = some (q ++ [bit]))
  /-- Paths are prefixes of codes still to come, or inserted codes. -/
  path_cases : ∀ q ∈ paths, (∃ c ∈ all, q <+: c.1 ∧ q ≠ c.1) ∨ ∃ s, (q, s) ∈ done
  /-- Every inserted code has its leaf. -/
  done_leaf : ∀ c ∈ done, ∃ i : Nat, paths[i]? = some c.1 ∧ nodes[i]? = some (Node.leaf c.2)
  /-- The paths are closed under dropping the last bit. -/
  closed : ∀ q bit, q ++ [bit] ∈ paths → q ∈ paths

variable {all done : List (List Bool × σ)} {nodes : Array (Node σ)}
  {paths : List (List Bool)}

variable {i : Nat} {q p : List Bool}

section

variable (h : Inv all done nodes paths)

include h

theorem Inv.lt_size (hi : paths[i]? = some q) : i < nodes.size := by
  rw [← h.length_eq]
  exact (List.getElem?_eq_some_iff.mp hi).1

/-- A path names at most one position. -/
theorem Inv.index_unique {j : Nat} (hi : paths[i]? = some q) (hj : paths[j]? = some q) : i = j :=
  (List.getElem?_inj (List.getElem?_eq_some_iff.mp hi).1 h.nodup).mp (hi.trans hj.symm)

/-- A path that is no inserted code names an internal node. -/
theorem Inv.internal (hi : paths[i]? = some q) (hno : ∀ s, (q, s) ∉ done) :
    ∃ left right, nodes[i]? = some (.internal left right) := by
  rcases hn : nodes[i]? with _ | ⟨left, right⟩ | s
  · have hlt := h.lt_size hi
    rw [Array.getElem?_eq_none_iff] at hn
    omega
  · exact ⟨left, right, rfl⟩
  · exact absurd (h.leaf_done i q s hi hn) (hno s)

end

/-- The invariant holds of the trie with no code in it. -/
theorem inv_root (all : List (List Bool × σ)) (h : ∃ c ∈ all, c.1 ≠ []) :
    Inv all [] #[.internal 0 0] [[]] where
  length_eq := rfl
  root := rfl
  nodup := nodup_singleton _
  leaf_done i q s hq hn := by
    rcases i with _ | i <;> simp at hn
  child i q left right bit hq hn := by
    rcases i with _ | i
    · simp only [getElem?_cons_zero, Option.some.injEq] at hq
      simp only [getElem?_toArray, getElem?_cons_zero, Option.some.injEq,
        Node.internal.injEq] at hn
      left
      rw [← hn.1, ← hn.2, ← hq]
      cases bit <;> simp [pick]
    · simp at hn
  path_cases q hq := by
    obtain ⟨c, hc, hne⟩ := h
    rw [mem_singleton.mp hq]
    exact .inl ⟨c, hc, nil_prefix, fun he => hne he.symm⟩
  done_leaf c hc := absurd hc not_mem_nil
  closed q bit hq := by simp at hq

/-! ## Allocating one node

Both branches of the insertion that allocate — a missing internal node, and the final leaf — hang
a fresh node under a path that was not there.  They are one lemma. -/

/-- The array after a node has been pushed and hung under position `i`. -/
def hang (nodes : Array (Node σ)) (i left right : Nat) (bit : Bool) (x : Node σ) :
    Array (Node σ) :=
  (nodes.push x).set! i (withChild bit left right nodes.size)

@[simp] theorem size_hang (i left right : Nat) (bit : Bool) (x : Node σ) :
    (hang nodes i left right bit x).size = nodes.size + 1 := by
  simp [hang]

theorem getElem?_hang_self (hi : i < nodes.size) (left right : Nat) (bit : Bool) (x : Node σ) :
    (hang nodes i left right bit x)[i]? = some (withChild bit left right nodes.size) := by
  have hi' : i < (nodes.push x).size := by rw [Array.size_push]; omega
  rw [hang, Array.set!_eq_setIfInBounds, Array.getElem?_setIfInBounds_self_of_lt hi']

theorem getElem?_hang_new (hi : i < nodes.size) (left right : Nat) (bit : Bool) (x : Node σ) :
    (hang nodes i left right bit x)[nodes.size]? = some x := by
  rw [hang, Array.set!_eq_setIfInBounds, Array.getElem?_setIfInBounds_ne (by omega)]
  exact Array.getElem?_push_size

theorem getElem?_hang_of_ne {j : Nat} (hij : i ≠ j) (hj : j < nodes.size) (left right : Nat)
    (bit : Bool) (x : Node σ) : (hang nodes i left right bit x)[j]? = nodes[j]? := by
  rw [hang, Array.set!_eq_setIfInBounds, Array.getElem?_setIfInBounds_ne hij, Array.getElem?_push,
    if_neg (by omega)]

/-- Reading the parallel list after a path has been appended. -/
theorem getElem?_snoc_cases (h : (paths ++ [p])[i]? = some q) :
    paths[i]? = some q ∨ (i = paths.length ∧ q = p) := by
  rw [getElem?_append] at h
  split at h
  · exact .inl h
  · obtain ⟨hi, hq⟩ := List.getElem?_eq_some_iff.mp h
    simp only [length_singleton] at hi
    simp only [getElem_singleton] at hq
    exact .inr ⟨by omega, hq.symm⟩

theorem getElem?_snoc_of_some (h : paths[i]? = some q) : (paths ++ [p])[i]? = some q := by
  rw [List.getElem?_append_left (List.getElem?_eq_some_iff.mp h).1, h]

/-- Hanging a fresh node `x` under a path that was missing keeps the invariant.  The inserted
codes gain the new path if and only if `x` is a leaf. -/
theorem Inv.hang (done' : List (List Bool × σ)) (h : Inv all done nodes paths) {left right : Nat}
    {bit : Bool} {x : Node σ} (hp : paths[i]? = some p)
    (hn : nodes[i]? = some (.internal left right)) (hnew : p ++ [bit] ∉ paths)
    (hx : x = .internal 0 0 ∨ ∃ s, x = .leaf s)
    (hdone : ∀ c, c ∈ done' ↔ c ∈ done ∨ (c.1 = p ++ [bit] ∧ x = .leaf c.2))
    (hcases : (∃ c ∈ all, p ++ [bit] <+: c.1 ∧ p ++ [bit] ≠ c.1) ∨ ∃ s, x = .leaf s) :
    Inv all done' (hang nodes i left right bit x) (paths ++ [p ++ [bit]]) := by
  have hi : i < nodes.size := h.lt_size hp
  have hlen := h.length_eq
  refine ⟨by simp [hlen], getElem?_snoc_of_some h.root, ?_, ?_, ?_, ?_, ?_, ?_⟩
  · -- the new path is fresh
    rw [nodup_append]
    refine ⟨h.nodup, nodup_singleton _, fun a ha b hb hab => hnew ?_⟩
    rwa [← mem_singleton.mp hb, ← hab]
  · intro j q s hq hj
    rw [hdone]
    rcases getElem?_snoc_cases hq with hq | ⟨rfl, rfl⟩
    · by_cases hij : i = j
      · subst hij
        rw [getElem?_hang_self hi] at hj
        cases bit <;> simp [withChild] at hj
      · rw [getElem?_hang_of_ne hij (h.lt_size hq)] at hj
        exact .inl (h.leaf_done j q s hq hj)
    · rw [hlen, getElem?_hang_new hi] at hj
      exact .inr ⟨rfl, Option.some.inj hj⟩
  · intro j q l r b hq hj
    rcases getElem?_snoc_cases hq with hq | ⟨rfl, rfl⟩
    · by_cases hij : i = j
      · -- the parent: its child for `bit` is the new node, the other one is as before
        subst hij
        obtain rfl : p = q := Option.some.inj (hp.symm.trans hq)
        rw [getElem?_hang_self hi] at hj
        by_cases hb : b = bit
        · right
          have hpick : pick b l r = nodes.size := by
            subst hb
            cases b <;> simp [withChild] at hj <;> simp [pick, hj]
          rw [hpick, hb, ← hlen]
          refine ⟨by omega, by simp⟩
        · have hpick : pick b l r = pick b left right := by
            cases b <;> cases bit <;> simp_all [withChild, pick]
          rw [hpick]
          rcases h.child i p left right b hp hn with ⟨h0, hm⟩ | ⟨h0, hm⟩
          · exact .inl ⟨h0, by simp [hm, hb]⟩
          · exact .inr ⟨h0, getElem?_snoc_of_some hm⟩
      · rw [getElem?_hang_of_ne hij (h.lt_size hq)] at hj
        rcases h.child j q l r b hq hj with ⟨h0, hm⟩ | ⟨h0, hm⟩
        · refine .inl ⟨h0, ?_⟩
          -- `q` is not the parent's path, because paths are not repeated
          rw [mem_append, mem_singleton, not_or]
          refine ⟨hm, fun he => hij (h.index_unique hp ?_)⟩
          rw [hq, (append_inj' he rfl).1]
        · exact .inr ⟨h0, getElem?_snoc_of_some hm⟩
    · -- the new node, if internal, has no child: a child's path would have had it as a prefix
      rw [hlen, getElem?_hang_new hi] at hj
      obtain rfl := Option.some.inj hj
      rcases hx with hx | ⟨s, hx⟩
      · obtain ⟨rfl, rfl⟩ := Node.internal.inj hx
        refine .inl ⟨by cases b <;> rfl, ?_⟩
        rw [mem_append, mem_singleton, not_or]
        exact ⟨fun hm => hnew (h.closed _ _ hm), by simp⟩
      · exact absurd hx (by simp)
  · intro q hq
    rcases mem_append.mp hq with hq | hq
    · rcases h.path_cases q hq with hc | ⟨s, hs⟩
      · exact .inl hc
      · exact .inr ⟨s, (hdone _).mpr (.inl hs)⟩
    · rw [mem_singleton.mp hq]
      rcases hcases with hc | ⟨s, hs⟩
      · exact .inl hc
      · exact .inr ⟨s, (hdone _).mpr (.inr ⟨rfl, hs⟩)⟩
  · intro c hc
    rcases (hdone c).mp hc with hc | ⟨hc, hs⟩
    · obtain ⟨j, hj, hl⟩ := h.done_leaf c hc
      refine ⟨j, getElem?_snoc_of_some hj, ?_⟩
      rw [getElem?_hang_of_ne _ (h.lt_size hj), hl]
      rintro rfl
      simp [hn] at hl
    · refine ⟨nodes.size, ?_, by rw [getElem?_hang_new hi, hs]⟩
      rw [hc, ← hlen]
      simp
  · intro q b hq
    rcases mem_append.mp hq with hq | hq
    · exact mem_append_left _ (h.closed q b hq)
    · have he := append_inj' (mem_singleton.mp hq) rfl
      exact mem_append_left _ (he.1 ▸ mem_of_getElem? hp)

/-! ## Inserting a code -/

variable {code : List Bool} {sym : σ}

/-- Inserting a code keeps the invariant, provided that no inserted code is a prefix of it and it
is a proper prefix of no code that is to be in the trie. -/
theorem insertPath_inv (width : Nat) (hmem : (code, sym) ∈ all) (hdone : ∀ c ∈ done, ¬ c.1 <+: code)
    (hall : ∀ c ∈ all, code <+: c.1 → c.1 = code) :
    ∀ (rest p : List Bool) (i : Nat) (nodes : Array (Node σ)) (paths : List (List Bool)),
      Inv all done nodes paths → rest ≠ [] → code = p ++ rest → paths[i]? = some p →
      nodes.size + rest.length ≤ 2 ^ width →
      ∃ nodes' paths', insertPath width sym rest i nodes = some nodes' ∧
        Inv all ((code, sym) :: done) nodes' paths' ∧
        nodes'.size ≤ nodes.size + rest.length := by
  intro rest
  induction rest with
  | nil => exact fun _ _ _ _ _ h => absurd rfl h
  | cons bit rest ih =>
    intro p i nodes paths h _ hcode hp hsize
    have hpre : p <+: code := ⟨bit :: rest, hcode.symm⟩
    simp only [length_cons] at hsize ⊢
    have hmod : nodes.size % 2 ^ width = nodes.size := Nat.mod_eq_of_lt (by omega)
    -- the node here is internal: a leaf would be an inserted prefix of `code`
    obtain ⟨left, right, hn⟩ := h.internal hp fun s hs => hdone _ hs hpre
    have hgrow : ∀ x : Node σ, (nodes.push x).set! i (withChild bit left right nodes.size)
        = hang nodes i left right bit x := fun _ => rfl
    rw [insertPath, hn]
    simp only [hmod, hgrow]
    cases rest with
    | nil =>
      have hnew : p ++ [bit] ∉ paths := by
        intro hq
        rcases h.path_cases _ hq with ⟨c, hc, hlt, hne⟩ | ⟨s, hs⟩
        · exact hne (hcode ▸ hall c hc (hcode ▸ hlt)).symm
        · exact hdone _ hs (hcode ▸ prefix_refl _)
      refine ⟨_, _, if_pos rfl, h.hang ((code, sym) :: done) hp hn hnew (.inr ⟨sym, rfl⟩) ?_
        (.inr ⟨sym, rfl⟩), by simp⟩
      intro c
      simp only [mem_cons, Node.leaf.injEq, hcode, Prod.ext_iff]
      tauto
    | cons bit' rest' =>
      rw [if_neg (by simp)]
      have hcode' : code = (p ++ [bit]) ++ bit' :: rest' := by simp [hcode]
      rcases h.child i p left right bit hp hn with ⟨h0, hnew⟩ | ⟨h0, hchild⟩
      · -- the child is missing: allocate it and go on from there
        rw [if_pos h0]
        have hinv := h.hang done (x := .internal 0 0) hp hn hnew (.inl rfl) (by simp)
          (.inl ⟨_, hmem, ⟨_, hcode'.symm⟩, by simp [hcode']⟩)
        obtain ⟨nodes', paths', hins, hinv', hsz⟩ := ih (p ++ [bit]) nodes.size _ _ hinv (by simp)
          hcode' (by simp [← h.length_eq]) (by simp at hsize ⊢; omega)
        exact ⟨nodes', paths', hins, hinv', by simp at hsz ⊢; omega⟩
      · rw [if_neg h0]
        obtain ⟨nodes', paths', hins, hinv', hsz⟩ := ih (p ++ [bit]) _ nodes paths h (by simp)
          hcode' hchild (by simp at hsize ⊢; omega)
        exact ⟨nodes', paths', hins, hinv', by omega⟩

/-- Inserting the codes of a prefix-free list one after the other keeps the invariant. -/
theorem insertCodes_inv {width : Nat} (hall : PrefixFree all) :
    ∀ (done todo : List (List Bool × σ)) (nodes : Array (Node σ)) (paths : List (List Bool)),
      done.reverse ++ todo = all → (∀ c ∈ todo, c.1 ≠ []) → Inv all done nodes paths →
      nodes.size + (todo.map (·.1.length)).sum ≤ 2 ^ width →
      ∃ nodes' paths', insertCodes width todo nodes = some nodes' ∧
        Inv all all.reverse nodes' paths' := by
  intro done todo
  induction todo generalizing done with
  | nil =>
    intro nodes paths hsplit _ h _
    have hdone : all.reverse = done := by rw [← hsplit]; simp
    exact ⟨nodes, paths, rfl, hdone ▸ h⟩
  | cons c todo ih =>
    intro nodes paths hsplit hne h hsize
    obtain ⟨code, sym⟩ := c
    simp only [map_cons, sum_cons] at hsize
    have hpw : (done.reverse ++ (code, sym) :: todo).Pairwise
        fun a b => ¬ a.1 <+: b.1 ∧ ¬ b.1 <+: a.1 := hsplit ▸ hall
    rw [pairwise_append] at hpw
    obtain ⟨-, hright, hcross⟩ := hpw
    have hdone : ∀ c ∈ done, ¬ c.1 <+: code ∧ ¬ code <+: c.1 := fun c hc =>
      hcross c (mem_reverse.mpr hc) _ mem_cons_self
    have hfree : ∀ c ∈ all, code <+: c.1 → c.1 = code := by
      intro c hc hpre
      rw [← hsplit] at hc
      rcases mem_append.mp hc with hc | hc
      · exact absurd hpre (hdone c (mem_reverse.mp hc)).2
      · rcases mem_cons.mp hc with rfl | hc
        · rfl
        · exact absurd hpre ((pairwise_cons.mp hright).1 c hc).1
    obtain ⟨nodes₁, paths₁, hins, hinv, hsz⟩ := insertPath_inv width
      (show (code, sym) ∈ all by rw [← hsplit]; simp) (fun c hc => (hdone c hc).1) hfree code [] 0
      nodes paths h (hne _ mem_cons_self) rfl h.root (by omega)
    obtain ⟨nodes', paths', hrest, hinv'⟩ := ih ((code, sym) :: done) nodes₁ paths₁
      (by simp [← hsplit]) (fun c hc => hne c (mem_cons_of_mem _ hc)) hinv (by omega)
    exact ⟨nodes', paths', by rw [insertCodes, hins]; exact hrest, hinv'⟩

/-- **Building succeeds.**  A prefix-free list of non-empty codes whose total length fits the
position width is built into a trie that holds exactly these codes. -/
theorem ofCodes_inv (width : Nat) (hall : PrefixFree all) (hne : ∀ c ∈ all, c.1 ≠ [])
    (hnil : all ≠ []) (hsize : 1 + (all.map (·.1.length)).sum ≤ 2 ^ width) :
    ∃ nodes paths, ofCodes width all = some nodes ∧ Inv all all.reverse nodes paths := by
  obtain ⟨c, hc⟩ := exists_mem_of_ne_nil _ hnil
  exact insertCodes_inv hall [] all _ _ rfl hne (inv_root all ⟨c, hc, hne c hc⟩) hsize

/-! ## Walking -/

variable {c : List Bool × σ}

/-- Every path on the way to an inserted code is there. -/
theorem Inv.mem_paths (h : Inv all done nodes paths) (hc : c ∈ done) (rest : List Bool) :
    ∀ p, c.1 = p ++ rest → p ∈ paths := by
  induction rest with
  | nil =>
    intro p hp
    obtain ⟨i, hi, -⟩ := h.done_leaf c hc
    rw [append_nil] at hp
    exact hp ▸ mem_of_getElem? hi
  | cons bit rest ih => exact fun p hp => h.closed p bit (ih (p ++ [bit]) (by simp [hp]))

/-- The end of the way to an inserted code is the leaf of its symbol. -/
theorem Inv.leaf_of_code (h : Inv all done nodes paths) (hc : c ∈ done) (hi : paths[i]? = some c.1) :
    nodes[i]? = some (.leaf c.2) := by
  obtain ⟨j, hj, hleaf⟩ := h.done_leaf c hc
  rw [h.index_unique hi hj, hleaf]

/-- On the way to an inserted code the node is internal and has the child for the next bit. -/
theorem Inv.child_of_code (hfree : PrefixFree all) (h : Inv all all.reverse nodes paths)
    (hc : c ∈ all) {bit : Bool} {rest : List Bool} (hp : c.1 = p ++ bit :: rest)
    (hi : paths[i]? = some p) :
    ∃ left right, nodes[i]? = some (.internal left right) ∧ pick bit left right ≠ 0 ∧
      paths[pick bit left right]? = some (p ++ [bit]) := by
  obtain ⟨left, right, hn⟩ := h.internal hi fun s hs => by
    have heq := hfree.eq_of_prefix (mem_reverse.mp hs) hc ⟨_, hp.symm⟩
    rw [← heq] at hp
    simp at hp
  refine ⟨left, right, hn, ?_⟩
  rcases h.child i p left right bit hi hn with ⟨-, hm⟩ | hchild
  · exact absurd (h.mem_paths (mem_reverse.mpr hc) rest _ (by simp [hp])) hm
  · exact hchild

end Ringline.ArrayTrie
