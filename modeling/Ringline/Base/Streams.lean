import Mathlib.Data.List.Nodup
import Mathlib.Data.List.Infix
import Mathlib.Logic.Function.Basic
import Mathlib.Tactic.Ring

/-!
# Streams sent piece by piece

Several independent byte streams are accepted piece by piece and leave piece by piece.  Some pieces
end with a *label*, whose owner is to be told once everything up to there is out.

What is still to be sent on a stream is a list of `Segment`s: elements, and the label after the
last of them.  `content` is what they hold together and `marksFrom off` where their labels fall,
counted from the start of the stream when the first segment begins at `off`.  Two lists with the
same content and the same marks are `Same`: which of them one uses makes no difference to anybody
outside, and in particular several segments may be merged into one (`same_merge`).

A `Ledger` is what an observer has seen of all streams: what was accepted, what went out, the
labels handed in and those handed back.  `Ledger.Balanced` says that it agrees with what is still
pending, and the lemmas below it say that accepting, sending and handing back keep it so.  From it
everything an observer may rely on follows: what went out is a prefix of what was accepted
(`Balanced.prefix`), a label comes back at most once and not before its last element
(`Balanced.done_spec`), and it does come back then (`Balanced.mem_done`).
-/

set_option autoImplicit false

namespace Ringline.Streams

open List Function

variable {κ α ι : Type}

/-- Elements still to be sent, and the label that follows them. -/
structure Segment (α ι : Type) where
  elems : List α
  label : Option ι

variable {l : List (Segment α ι)}

/-- All elements of a list of segments. -/
def content (l : List (Segment α ι)) : List α := l.flatMap Segment.elems

/-- The labels of a list of segments that starts at `off`, with the offsets they fall on. -/
def marksFrom : Nat → List (Segment α ι) → List (ι × Nat)
  | _, [] => []
  | off, x :: l =>
    (x.label.map (·, off + x.elems.length)).toList ++ marksFrom (off + x.elems.length) l

@[simp] theorem content_nil : content ([] : List (Segment α ι)) = [] := rfl

@[simp] theorem content_cons (x : Segment α ι) (l : List (Segment α ι)) :
    content (x :: l) = x.elems ++ content l := rfl

@[simp] theorem content_append (l m : List (Segment α ι)) :
    content (l ++ m) = content l ++ content m := flatMap_append

theorem marksFrom_append (off : Nat) (l m : List (Segment α ι)) :
    marksFrom off (l ++ m) = marksFrom off l ++ marksFrom (off + (content l).length) m := by
  induction l generalizing off with
  | nil => simp [marksFrom]
  | cons x l ih =>
    rw [cons_append, marksFrom, ih, marksFrom, content_cons, length_append,
      append_assoc, Nat.add_assoc]

/-- Sending the first `n` elements of the head moves the start, not the marks. -/
theorem marksFrom_drop (off n : Nat) (x : Segment α ι) (l : List (Segment α ι))
    (hn : n ≤ x.elems.length) :
    marksFrom (off + n) ({ x with elems := x.elems.drop n } :: l) = marksFrom off (x :: l) := by
  have hoff : off + n + (x.elems.drop n).length = off + x.elems.length := by
    rw [length_drop]
    omega
  rw [marksFrom, marksFrom, hoff]

theorem map_fst_marksFrom (off : Nat) (l : List (Segment α ι)) :
    (marksFrom off l).map Prod.fst = l.filterMap Segment.label := by
  induction l generalizing off with
  | nil => rfl
  | cons x l ih =>
    rw [marksFrom, map_append, ih, filterMap_cons]
    cases x.label <;> rfl

/-- With no empty segment among the labelled ones, every mark lies beyond the start. -/
theorem lt_of_mem_marksFrom {off stop : Nat} {i : ι} (hne : ∀ x ∈ l, x.label ≠ none → x.elems ≠ [])
    (hmem : (i, stop) ∈ marksFrom off l) :
    off < stop := by
  induction l generalizing off with
  | nil => cases hmem
  | cons x l ih =>
    rw [marksFrom, mem_append] at hmem
    rcases hmem with hhead | htail
    · rw [Option.mem_toList, Option.map_eq_some_iff] at hhead
      obtain ⟨j, hj, heq⟩ := hhead
      have hpos : 0 < x.elems.length :=
        length_pos_iff.mpr (hne x (mem_cons_self ..) (by rw [hj]; exact nofun))
      have : off + x.elems.length = stop := congrArg Prod.snd heq
      omega
    · have := ih (fun y hy => hne y (mem_cons_of_mem _ hy)) htail
      omega

/-! ## Lists of segments that mean the same -/

/-- The same elements, with the same labels at the same places. -/
structure Same (l m : List (Segment α ι)) : Prop where
  content : content l = content m
  marks : ∀ off, marksFrom off l = marksFrom off m

theorem Same.refl (l : List (Segment α ι)) : Same l l := ⟨rfl, fun _ => rfl⟩

theorem Same.trans {m n : List (Segment α ι)} (h : Same l m) (h' : Same m n) : Same l n :=
  ⟨h.content.trans h'.content, fun off => (h.marks off).trans (h'.marks off)⟩

theorem Same.append_right {m : List (Segment α ι)} (h : Same l m) (r : List (Segment α ι)) :
    Same (l ++ r) (m ++ r) where
  content := by rw [content_append, content_append, h.content]
  marks off := by rw [marksFrom_append, marksFrom_append, h.marks, h.content]

theorem marksFrom_of_unlabelled (off : Nat) (h : ∀ x ∈ l, x.label = none) :
    marksFrom off l = [] := by
  induction l generalizing off with
  | nil => rfl
  | cons x l ih =>
    rw [marksFrom, h x (mem_cons_self ..), ih _ fun y hy => h y (mem_cons_of_mem _ hy)]
    rfl

/-- Segments may be merged when only the last of them has a label. -/
theorem same_merge (run : List (Segment α ι)) (last : Segment α ι)
    (h : ∀ x ∈ run, x.label = none) :
    Same (run ++ [last]) [{ elems := content (run ++ [last]), label := last.label }] where
  content := by simp
  marks off := by
    rw [marksFrom_append, marksFrom_of_unlabelled off h, marksFrom, marksFrom, marksFrom,
      marksFrom, content_append, length_append, content_cons, content_nil, append_nil,
      Nat.add_assoc, nil_append, append_nil, append_nil]

/-! ## Ledgers -/

/-- A label that was handed in: its stream and the offset it waits for. -/
structure Mark (κ ι : Type) where
  stream : κ
  label : ι
  stop : Nat

/-- What can be seen of a family of streams from outside. -/
structure Ledger (κ α ι : Type) where
  accepted : κ → List α
  wire : κ → List α
  marks : List (Mark κ ι)
  done : List ι

namespace Ledger

variable [DecidableEq κ] [DecidableEq ι]

/-- The marks of stream `k` whose labels have not been handed back. -/
def openMarks (led : Ledger κ α ι) (k : κ) : List (Mark κ ι) :=
  led.marks.filter fun m => m.stream = k ∧ m.label ∉ led.done

/-- The ledger agrees with the segments `pend k` that are still to be sent on each stream `k`. -/
structure Balanced (led : Ledger κ α ι) (pend : κ → List (Segment α ι)) : Prop where
  content : ∀ k, led.wire k ++ Streams.content (pend k) = led.accepted k
  labels : (led.marks.map Mark.label).Nodup
  nodup_done : led.done.Nodup
  pending : ∀ k, marksFrom (led.wire k).length (pend k) =
    (led.openMarks k).map fun m => (m.label, m.stop)
  done_spec : ∀ i ∈ led.done, ∃ m ∈ led.marks, m.label = i ∧ m.stop ≤ (led.wire m.stream).length

variable {led : Ledger κ α ι} {pend pend' : κ → List (Segment α ι)}

theorem balanced_nil : Balanced (⟨fun _ => [], fun _ => [], [], []⟩ : Ledger κ α ι) fun _ => [] where
  content _ := rfl
  labels := nodup_nil
  nodup_done := nodup_nil
  pending _ := rfl
  done_spec _ h := nomatch h

section

variable (h : led.Balanced pend)

include h

/-- What went out is a prefix of what was accepted. -/
theorem Balanced.prefix (k : κ) : led.wire k <+: led.accepted k :=
  ⟨_, h.content k⟩

/-- A label comes back as soon as its last element is out. -/
theorem Balanced.mem_done (hne : ∀ k, ∀ x ∈ pend k, x.label ≠ none → x.elems ≠ []) {m : Mark κ ι}
    (hm : m ∈ led.marks) (hout : m.stop ≤ (led.wire m.stream).length) : m.label ∈ led.done := by
  by_contra hopen
  have hmem : (m.label, m.stop) ∈ (led.openMarks m.stream).map fun m => (m.label, m.stop) :=
    mem_map.mpr ⟨m, mem_filter.mpr ⟨hm, by simpa using hopen⟩, rfl⟩
  rw [← h.pending] at hmem
  exact absurd (lt_of_mem_marksFrom (hne _) hmem) (Nat.not_lt.mpr hout)

/-- Only what the pending segments mean counts. -/
theorem Balanced.same (hs : ∀ k, Same (pend k) (pend' k)) :
    led.Balanced pend' where
  content k := by rw [← (hs k).content, h.content]
  labels := h.labels
  nodup_done := h.nodup_done
  pending k := by rw [← (hs k).marks, h.pending]
  done_spec := h.done_spec

/-- Accept unlabelled segments on stream `k`. -/
theorem Balanced.accept (k : κ) (l : List (Segment α ι)) (hl : ∀ x ∈ l, x.label = none) :
    Balanced { led with accepted := update led.accepted k (led.accepted k ++ Streams.content l) }
      (update pend k (pend k ++ l)) where
  content j := by
    rcases eq_or_ne j k with rfl | hj
    · simp only [update_self, content_append, ← append_assoc, h.content]
    · simp only [update_of_ne hj, h.content]
  labels := h.labels
  nodup_done := h.nodup_done
  pending j := by
    rcases eq_or_ne j k with rfl | hj
    · simp only [update_self, marksFrom_append, marksFrom_of_unlabelled _ hl,
        append_nil, h.pending]
      rfl
    · simp only [update_of_ne hj, h.pending]
      rfl
  done_spec := h.done_spec

end

/-- Handing in a fresh label leaves the open marks of the other streams alone. -/
theorem openMarks_append (led : Ledger κ α ι) (m : Mark κ ι) (hm : m.label ∉ led.done) (k : κ) :
    openMarks { led with marks := led.marks ++ [m] } k =
      led.openMarks k ++ if m.stream = k then [m] else [] := by
  simp only [openMarks, filter_append, filter_cons, filter_nil]
  congr 1
  by_cases hk : m.stream = k <;> simp [hk, hm]

section

variable (h : led.Balanced pend)

include h

theorem Balanced.labels_append {m : Mark κ ι} (hfresh : m.label ∉ led.marks.map Mark.label) :
    ((led.marks ++ [m]).map Mark.label).Nodup := by
  rw [map_append, nodup_append]
  refine ⟨h.labels, nodup_singleton _, fun a ha b hb => ?_⟩
  rw [map_singleton, mem_singleton] at hb
  rintro rfl
  exact hfresh (hb ▸ ha)

/-- Accept on stream `k` segments of which only the last has a label, a fresh one. -/
theorem Balanced.acceptLabelled (k : κ) (l : List (Segment α ι)) (x : Segment α ι) (i : ι)
    (hl : ∀ y ∈ l, y.label = none) (hx : x.label = some i) (hfresh : i ∉ led.marks.map Mark.label) :
    Balanced
      { led with
        accepted := update led.accepted k (led.accepted k ++ Streams.content (l ++ [x]))
        marks := led.marks ++ [⟨k, i, (led.accepted k ++ Streams.content (l ++ [x])).length⟩] }
      (update pend k (pend k ++ (l ++ [x]))) where
  content j := by
    rcases eq_or_ne j k with rfl | hj
    · simp only [update_self, content_append, ← append_assoc, h.content]
    · simp only [update_of_ne hj, h.content]
  labels := h.labels_append hfresh
  nodup_done := h.nodup_done
  pending j := by
    have hdone : i ∉ led.done := by
      intro hi
      obtain ⟨m, hm, hmi, -⟩ := h.done_spec i hi
      exact hfresh (mem_map.mpr ⟨m, hm, hmi⟩)
    have hopen := openMarks_append led
      ⟨k, i, (led.accepted k ++ Streams.content (l ++ [x])).length⟩ hdone j
    have hcongr : openMarks
        { led with
          accepted := update led.accepted k (led.accepted k ++ Streams.content (l ++ [x]))
          marks := led.marks ++ [⟨k, i, (led.accepted k ++ Streams.content (l ++ [x])).length⟩] } j =
        openMarks { led with
          marks := led.marks ++ [⟨k, i, (led.accepted k ++ Streams.content (l ++ [x])).length⟩] } j :=
      rfl
    rw [hcongr, hopen, map_append, ← h.pending]
    rcases eq_or_ne j k with rfl | hj
    · rw [update_self, marksFrom_append, marksFrom_append,
        marksFrom_of_unlabelled _ hl, marksFrom, marksFrom, hx, if_pos rfl, ← h.content]
      simp only [nil_append, content_append, content_cons, content_nil, append_nil,
        Option.map_some, Option.toList_some, map_cons, map_nil, length_append,
        Nat.add_assoc]
    · rw [update_of_ne hj, if_neg hj.symm, map_nil, append_nil]
  done_spec := fun j hj => by
    obtain ⟨m, hm, hrest⟩ := h.done_spec j hj
    exact ⟨m, mem_append_left _ hm, hrest⟩

/-- Hand in a fresh label that waits for nothing, and hand it back at once. -/
theorem Balanced.acceptDone (k : κ) (i : ι) (hfresh : i ∉ led.marks.map Mark.label) :
    Balanced { led with marks := led.marks ++ [⟨k, i, 0⟩], done := led.done ++ [i] } pend where
  content := h.content
  labels := h.labels_append hfresh
  nodup_done := by
    rw [nodup_append]
    refine ⟨h.nodup_done, nodup_singleton _, fun a ha b hb => ?_⟩
    rw [mem_singleton] at hb
    rintro rfl
    obtain ⟨m, hm, hma, -⟩ := h.done_spec a ha
    exact hfresh (mem_map.mpr ⟨m, hm, hma.trans hb⟩)
  pending j := by
    rw [h.pending]
    have hold : ∀ m ∈ led.marks, m.label ≠ i := by
      rintro m hm rfl
      exact hfresh (mem_map.mpr ⟨m, hm, rfl⟩)
    simp only [openMarks, filter_append, filter_cons, filter_nil, mem_append,
      mem_singleton, or_true, not_true, and_false, decide_false, Bool.false_eq_true, if_false,
      append_nil]
    congr 1
    apply filter_congr
    intro m hm
    simp [hold m hm]
  done_spec := by
    intro j hj
    rcases mem_append.mp hj with hj | hj
    · obtain ⟨m, hm, hrest⟩ := h.done_spec j hj
      exact ⟨m, mem_append_left _ hm, hrest⟩
    · rw [mem_singleton] at hj
      exact ⟨⟨k, i, 0⟩, by simp, hj.symm, Nat.zero_le _⟩

/-- The first `n` elements of the head segment of stream `k` go out. -/
theorem Balanced.progress (k : κ) (x : Segment α ι) (l : List (Segment α ι)) (n : Nat)
    (hpend : pend k = x :: l) (hn : n ≤ x.elems.length) :
    Balanced { led with wire := update led.wire k (led.wire k ++ x.elems.take n) }
      (update pend k ({ x with elems := x.elems.drop n } :: l)) where
  content j := by
    rcases eq_or_ne j k with rfl | hj
    · simp only [update_self, content_cons, append_assoc]
      rw [← append_assoc (x.elems.take n), take_append_drop, ← content_cons, ← hpend,
        h.content]
    · simp only [update_of_ne hj, h.content]
  labels := h.labels
  nodup_done := h.nodup_done
  pending j := by
    rcases eq_or_ne j k with rfl | hj
    · have hlen : (led.wire j ++ x.elems.take n).length = (led.wire j).length + n := by
        rw [length_append, length_take, Nat.min_eq_left hn]
      simp only [update_self, hlen, marksFrom_drop _ n x l hn, ← hpend, h.pending]
      rfl
    · simp only [update_of_ne hj, h.pending]
      rfl
  done_spec := by
    intro i hi
    obtain ⟨m, hm, hmi, hle⟩ := h.done_spec i hi
    refine ⟨m, hm, hmi, hle.trans ?_⟩
    rcases eq_or_ne m.stream k with hk | hk
    · simp [hk, update_self]
    · simp [update_of_ne hk]

/-- The head segment of stream `k` is empty: its label is handed back. -/
theorem Balanced.finish (k : κ) (x : Segment α ι) (l : List (Segment α ι)) (hpend : pend k = x :: l)
    (hx : x.elems = []) :
    Balanced { led with done := led.done ++ x.label.toList } (update pend k l) := by
  have hcontent : ∀ j, led.wire j ++ Streams.content (update pend k l j) = led.accepted j := by
    intro j
    rcases eq_or_ne j k with rfl | hj
    · rw [update_self, ← h.content, hpend, content_cons, hx, nil_append]
    · rw [update_of_ne hj, h.content]
  rcases hlabel : x.label with _ | i
  · refine ⟨hcontent, h.labels, by simpa using h.nodup_done, fun j => ?_, by simpa using h.done_spec⟩
    have hopen : openMarks { led with done := led.done ++ (none : Option ι).toList } j =
        led.openMarks j := by simp [openMarks]
    rw [hopen, ← h.pending]
    rcases eq_or_ne j k with rfl | hj
    · rw [update_self, hpend, marksFrom, hlabel, hx]
      rfl
    · rw [update_of_ne hj]
  -- The label of the head is the first open mark of the stream.
  have hpending := h.pending k
  rw [hpend, marksFrom, hlabel, hx] at hpending
  simp only [Option.map_some, Option.toList_some, cons_append, nil_append,
    length_nil, Nat.add_zero] at hpending
  obtain ⟨m, rest, hrest, hm, htail⟩ := map_eq_cons_iff.mp hpending.symm
  have hmem : m ∈ led.openMarks k := by rw [hrest]; exact mem_cons_self ..
  obtain ⟨hmarks, hmopen⟩ := mem_filter.mp hmem
  simp only [decide_eq_true_eq] at hmopen
  obtain ⟨hlab, hstop⟩ : m.label = i ∧ m.stop = (led.wire k).length := by simpa using hm
  have hopen : ∀ j, openMarks { led with done := led.done ++ (some i).toList } j =
      (led.openMarks j).filter fun m => m.label ≠ i := by
    intro j
    rw [openMarks, openMarks, filter_filter]
    apply filter_congr
    intro m' _
    simp only [Option.toList_some, mem_append, mem_singleton, not_or, Bool.decide_and,
      decide_not]
    cases decide (m'.stream = j) <;> cases decide (m'.label ∈ led.done) <;>
      cases decide (m'.label = i) <;> rfl
  have hsub : ∀ j, ((led.openMarks j).map Mark.label).Nodup := fun j =>
    h.labels.sublist ((filter_sublist).map _)
  refine ⟨hcontent, h.labels, ?_, fun j => ?_, ?_⟩
  · rw [nodup_append]
    refine ⟨h.nodup_done, by simp, fun a ha b hb => ?_⟩
    rw [Option.toList_some, mem_singleton] at hb
    rintro rfl
    exact hmopen.2 (hlab ▸ hb ▸ ha)
  · rw [hopen]
    rcases eq_or_ne j k with rfl | hj
    · have hnodup := hsub j
      rw [hrest, map_cons, nodup_cons] at hnodup
      rw [update_self, ← htail, hrest, filter_cons, if_neg (by simp [hlab])]
      congr 1
      refine (filter_eq_self.mpr fun m' hm' => ?_).symm
      have : m'.label ≠ i := by
        rintro rfl
        exact hnodup.1 (hlab ▸ mem_map.mpr ⟨m', hm', rfl⟩)
      simpa using this
    · rw [update_of_ne hj, h.pending]
      congr 1
      refine (filter_eq_self.mpr fun m' hm' => ?_).symm
      obtain ⟨hm'marks, hm'open⟩ := mem_filter.mp hm'
      simp only [decide_eq_true_eq] at hm'open
      have : m'.label ≠ i := by
        intro heq
        have hsame := inj_on_of_nodup_map h.labels hm'marks hmarks (heq.trans hlab.symm)
        exact hj (hm'open.1.symm.trans (hsame ▸ hmopen.1))
      simpa using this
  · intro a ha
    rcases mem_append.mp ha with ha | ha
    · exact h.done_spec a ha
    · rw [Option.toList_some, mem_singleton] at ha
      exact ⟨m, hmarks, hlab.trans ha.symm, hmopen.1 ▸ hstop.le⟩

end

end Ledger
end Ringline.Streams
