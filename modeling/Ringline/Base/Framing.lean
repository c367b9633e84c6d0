import Mathlib.Data.List.Basic

/-!
# Items cut out of a stream

A stream of symbols carries items one after the other, and a decoder looks at a buffer: it finds an
item at the front, or that something is wrong there, or it needs more.  A `Framing` is such a decoder
with the law that makes it fit for streams: what it finds does not depend on what comes behind
(`item_append`, `bad_append`).

`drain` takes items off the buffer as long as there are any.  `drain_append` says that a stream may be
cut anywhere: draining a buffer, then what is left of it together with the next piece, is draining both
at once.
-/

set_option autoImplicit false

namespace Ringline

/-- What a decoder finds at the front of a buffer. -/
inductive Found (β α ε : Type) where
  /-- An item, with what comes behind it. -/
  | item (a : α) (rest : List β)
  /-- Nothing that can be an item. -/
  | bad (e : ε)
  /-- The buffer may be the beginning of an item. -/
  | more

/-- A decoder that can be run on a stream. -/
structure Framing (β α ε : Type) where
  next : List β → Found β α ε
  shorter : ∀ {b a r}, next b = .item a r → r.length < b.length
  item_append : ∀ {b a r} (c : List β), next b = .item a r → next (b ++ c) = .item a (r ++ c)
  bad_append : ∀ {b e} (c : List β), next b = .bad e → next (b ++ c) = .bad e

/-- The items of a buffer, what stopped them, and what is left. -/
@[ext]
structure Drained (β α ε : Type) where
  items : List α
  error : Option ε
  rest : List β

/-- With these items in front. -/
def Drained.after {β α ε : Type} (as : List α) (d : Drained β α ε) : Drained β α ε :=
  ⟨as ++ d.items, d.error, d.rest⟩

namespace Framing

variable {β α ε : Type} (F : Framing β α ε)
variable {b : List β}

/-- Take items off the buffer, at most `n`. -/
def drainN : Nat → List β → Drained β α ε
  | 0, b => ⟨[], none, b⟩
  | n + 1, b =>
    match F.next b with
    | .item a r => (drainN n r).after [a]
    | .bad e => ⟨[], some e, b⟩
    | .more => ⟨[], none, b⟩

/-- Take all items off the buffer. -/
def drain (b : List β) : Drained β α ε := F.drainN (b.length + 1) b

/-- Every item is shorter than the buffer, so its length bounds how many there are. -/
theorem drainN_of_lt {n m : Nat} (hn : b.length < n) (hm : b.length < m) :
    F.drainN n b = F.drainN m b := by
  induction n generalizing m b with
  | zero => exact absurd hn (Nat.not_lt_zero _)
  | succ n ih =>
    obtain ⟨m, rfl⟩ := Nat.exists_eq_add_one_of_ne_zero (Nat.ne_zero_of_lt hm)
    rw [drainN, drainN]
    rcases hb : F.next b with ⟨a, r⟩ | e | _
    · have hr := F.shorter hb
      exact congrArg (Drained.after [a]) (ih (by omega) (by omega))
    · rfl
    · rfl

theorem drain_eq_drainN {n : Nat} (hn : b.length < n) : F.drainN n b = F.drain b :=
  F.drainN_of_lt hn (Nat.lt_succ_self _)

variable {F}

theorem drain_of_item {r : List β} {a : α} (h : F.next b = .item a r) :
    F.drain b = (F.drain r).after [a] := by
  have hr := F.shorter h
  rw [drain, drainN, h]
  exact congrArg (Drained.after [a]) (F.drain_eq_drainN hr)

theorem drain_of_bad {e : ε} (h : F.next b = .bad e) : F.drain b = ⟨[], some e, b⟩ := by
  rw [drain, drainN, h]

theorem drain_of_more (h : F.next b = .more) : F.drain b = ⟨[], none, b⟩ := by
  rw [drain, drainN, h]

/-- Induction along the items of a buffer. -/
theorem drain_induction {P : List β → Prop} (hitem : ∀ b a r, F.next b = .item a r → P r → P b)
    (hbad : ∀ b e, F.next b = .bad e → P b) (hmore : ∀ b, F.next b = .more → P b) (b : List β) : P b := by
  induction hn : b.length using Nat.strongRecOn generalizing b with
  | _ n ih =>
    rcases hb : F.next b with ⟨a, r⟩ | e | _
    · exact hitem b a r hb (ih r.length (hn ▸ F.shorter hb) r rfl)
    · exact hbad b e hb
    · exact hmore b hb

/-- What is left after draining without an error is no item. -/
theorem next_rest (b : List β) (h : (F.drain b).error = none) : F.next (F.drain b).rest = .more := by
  refine drain_induction (F := F) (P := fun b => (F.drain b).error = none →
    F.next (F.drain b).rest = .more) (fun b a r hb ih => ?_) (fun b e hb => ?_) (fun b hb => ?_) b h
  · rw [drain_of_item hb]
    exact ih
  · rw [drain_of_bad hb]
    nofun
  · rw [drain_of_more hb]
    exact fun _ => hb

/-- A prefix of a stream without an error has none. -/
theorem error_of_append {c : List β} (h : (F.drain (b ++ c)).error = none) :
    (F.drain b).error = none := by
  refine drain_induction (F := F) (P := fun b => (F.drain (b ++ c)).error = none →
    (F.drain b).error = none) (fun b a r hb ih => ?_) (fun b e hb => ?_) (fun b hb => ?_) b h
  · rw [drain_of_item hb, drain_of_item (F.item_append c hb)]
    exact ih
  · rw [drain_of_bad (F.bad_append c hb)]
    nofun
  · rw [drain_of_more hb]
    exact fun _ => rfl

/-- **A stream may be cut anywhere.** -/
theorem drain_append (c : List β) (h : (F.drain b).error = none) :
    F.drain (b ++ c) = (F.drain ((F.drain b).rest ++ c)).after (F.drain b).items := by
  refine drain_induction (F := F) (P := fun b => (F.drain b).error = none → F.drain (b ++ c) =
    (F.drain ((F.drain b).rest ++ c)).after (F.drain b).items)
    (fun b a r hb ih => ?_) (fun b e hb => ?_) (fun b hb => ?_) b h
  · intro herr
    rw [drain_of_item hb] at herr ⊢
    rw [drain_of_item (F.item_append c hb), ih herr]
    rfl
  · rw [drain_of_bad hb]
    nofun
  · rw [drain_of_more hb]
    exact fun _ => rfl

/-- An error stays, whatever comes behind. -/
theorem drain_append_of_error (c : List β) {e : ε} (h : (F.drain b).error = some e) :
    F.drain (b ++ c) = ⟨(F.drain b).items, some e, (F.drain b).rest ++ c⟩ := by
  refine drain_induction (F := F) (P := fun b => (F.drain b).error = some e → F.drain (b ++ c) =
    ⟨(F.drain b).items, some e, (F.drain b).rest ++ c⟩)
    (fun b a r hb ih => ?_) (fun b e' hb => ?_) (fun b hb => ?_) b h
  · intro herr
    rw [drain_of_item hb] at herr ⊢
    rw [drain_of_item (F.item_append c hb), ih herr]
    rfl
  · intro herr
    rw [drain_of_bad hb] at herr ⊢
    rw [drain_of_bad (F.bad_append c hb), Option.some.inj herr]
  · rw [drain_of_more hb]
    nofun

/-- What is left after an error begins with it. -/
theorem next_rest_of_error {e : ε} (h : (F.drain b).error = some e) :
    F.next (F.drain b).rest = .bad e := by
  refine drain_induction (F := F) (P := fun b => (F.drain b).error = some e →
    F.next (F.drain b).rest = .bad e) (fun b a r hb ih => ?_) (fun b e' hb => ?_) (fun b hb => ?_) b h
  · rw [drain_of_item hb]
    exact ih
  · rw [drain_of_bad hb]
    intro herr
    rw [hb, Option.some.inj herr]
  · rw [drain_of_more hb]
    nofun

/-- A buffer from which nothing was taken is what is left. -/
theorem eq_rest_of_items_nil (h : (F.drain b).items = []) : (F.drain b).rest = b := by
  rcases hb : F.next b with ⟨a, r⟩ | e | _
  · rw [drain_of_item hb] at h
    cases h
  · rw [drain_of_bad hb]
  · rw [drain_of_more hb]

end Framing
end Ringline
