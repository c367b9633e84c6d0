import Ringline.Base.Run
import Ringline.Base.SwapRemove
import Ringline.Base.Table
import Mathlib.Logic.Relation

/-!
# Cancellation tokens

`ringline/src/runtime/cancellation.rs`: a token is a counted reference to a state, which knows
whether it is cancelled, the tasks that wait for this, and the children that are to be cancelled
with it.  The children are known by weak references only, so that a state is freed when its last
token and its last future are dropped, with all that it knows.

States are numbered in the order in which they were made.  `cancel` marks a state, wakes its tasks,
and goes on to those of its children that are still there.

Which token was derived from which is known to nobody: the state of a token that is dropped is gone,
and with it the way to its children.  A token is reached by a cancellation if and only if all the
states between are still there (`cancel_reaches_iff`).  So a token outlives its parent as one that
nobody can cancel from above (`orphan_not_cancelled`).
-/

set_option autoImplicit false

namespace Ringline.Runtime.Cancellation

open List Function Option

/-- `State`, with the number of tokens and of futures that hold it. -/
structure Node where
  tokens : Nat
  futures : Nat
  cancelled : Bool
  waiters : List Nat
  children : List Nat
deriving DecidableEq

namespace Node

variable (n : Node)

/-- `Rc::strong_count`. -/
def strong : Nat := n.tokens + n.futures

/-- The state in `CancellationToken::new`. -/
def fresh : Node := ⟨1, 0, false, [], []⟩

/-- A state that nobody holds is freed, and forgets what it knew. -/
def freed : Node := if n.strong = 0 then { n with waiters := [], children := [] } else n

@[simp] theorem strong_freed : n.freed.strong = n.strong := by
  rw [freed]
  split <;> rfl

@[simp] theorem futures_freed : n.freed.futures = n.futures := by
  rw [freed]
  split <;> rfl

@[simp] theorem cancelled_freed : n.freed.cancelled = n.cancelled := by
  rw [freed]
  split <;> rfl

theorem freed_of_strong {n : Node} (h : 0 < n.strong) : n.freed = n := if_neg h.ne'

theorem mem_children_freed {n : Node} {c : Nat} (h : c ∈ n.freed.children) : c ∈ n.children := by
  rw [freed] at h
  split at h
  · exact absurd h not_mem_nil
  · exact h

/-- A state that has been cancelled. -/
def marked : Node := { n with cancelled := true, waiters := [], children := [] }

end Node

/-- `CancelledFuture`. -/
structure CancelledFuture where
  state : Nat
  registered : Option Nat
deriving DecidableEq

/-- The states, the futures, and the tasks that were woken. -/
structure World where
  nodes : List Node
  futures : Table Nat CancelledFuture
  wakes : List Nat

namespace World

/-- At the start there is nothing. -/
def empty : World := ⟨[], .empty, []⟩

variable (w : World)

/-- A weak reference to the state can be upgraded. -/
def isAlive (c : Nat) : Bool := (w.nodes[c]?).any (0 < ·.strong)

/-- `is_cancelled`. -/
def isCancelled (c : Nat) : Bool := (w.nodes[c]?).any (·.cancelled)

/-- There is a token for this state. -/
def hasToken (c : Nat) : Bool := (w.nodes[c]?).any (0 < ·.tokens)

/-- A change of one state. -/
def update (c : Nat) (f : Node → Node) : World := { w with nodes := w.nodes.modify c f }

/-- A state is marked as cancelled, and its tasks are woken. -/
def mark (c : Nat) (n : Node) : World :=
  { w.update c Node.marked with wakes := w.wakes ++ n.waiters }

/-- `cancel_state`.  A child is younger than its parent, so that the number of states is fuel
enough. -/
def cancelState : Nat → World → Nat → World
  | 0, w, _ => w
  | fuel + 1, w, c =>
    match w.nodes[c]? with
    | none => w
    | some n =>
      if n.cancelled then w
      else
        n.children.foldl (fun w c => if w.isAlive c then cancelState fuel w c else w) (w.mark c n)

/-- `CancellationToken::cancel`. -/
def cancel (c : Nat) : World := cancelState w.nodes.length w c

/-- `CancellationToken::new`. -/
def new : World := { w with nodes := w.nodes ++ [.fresh] }

/-- `CancellationToken::child_token`. -/
def childToken (c : Nat) : World :=
  let child := w.nodes.length
  if w.isCancelled c then w.new.cancel child
  else w.new.update c fun n => { n with children := n.children.filter w.isAlive ++ [child] }

/-- `CancellationToken::clone`. -/
def clone (c : Nat) : World := w.update c fun n => { n with tokens := n.tokens + 1 }

/-- A token is dropped. -/
def drop (c : Nat) : World :=
  w.update c fun n => { n with tokens := n.tokens - 1 }.freed

/-- `CancellationToken::cancelled`. -/
def cancelledFuture (c k : Nat) : World :=
  { w.update c fun n => { n with futures := n.futures + 1 } with
    futures := w.futures.insert k ⟨c, none⟩ }

/-- `CancelledFuture::poll`; the flag tells whether the future is ready. -/
def pollCancelled (k task : Nat) : World × Bool :=
  match w.futures.get? k with
  | none => (w, false)
  | some f =>
    if w.isCancelled f.state then (w, true)
    else if f.registered = none then
      ({ w.update f.state fun n => { n with waiters := n.waiters ++ [task] } with
          futures := w.futures.insert k { f with registered := some task } }, false)
    else (w, false)

/-- `CancelledFuture::drop`, and then the reference of the future. -/
def dropCancelled (k : Nat) : World :=
  match w.futures.get? k with
  | none => w
  | some f =>
    { w.update f.state fun n =>
        { n with
          futures := n.futures - 1
          waiters :=
            match f.registered with
            | none => n.waiters
            | some id =>
              if n.cancelled = false ∧ id ∈ n.waiters then swapRemove n.waiters (n.waiters.idxOf id)
              else n.waiters }.freed with
      futures := w.futures.erase k }

end World

/-! ## Runs -/

/-- What can happen to tokens. -/
inductive Event where
  | new
  | childToken (c : Nat)
  | clone (c : Nat)
  | drop (c : Nat)
  | cancel (c : Nat)
  /-- `cancelled` makes the future `k`. -/
  | cancelled (c k : Nat)
  | poll (k task : Nat)
  | dropFuture (k : Nat)

namespace World

/-- A step.  Only a token that is there can be used, and the number of a future is used once. -/
def step (w : World) : Event → World
  | .new => w.new
  | .childToken c => if w.hasToken c then w.childToken c else w
  | .clone c => if w.hasToken c then w.clone c else w
  | .drop c => if w.hasToken c then w.drop c else w
  | .cancel c => if w.hasToken c then w.cancel c else w
  | .cancelled c k => if w.hasToken c ∧ w.futures.get? k = none then w.cancelledFuture c k else w
  | .poll k task => (w.pollCancelled k task).1
  | .dropFuture k => w.dropCancelled k

end World

/-- What is reached from a state by going from parents to children that are there. -/
def Reach (parent : Nat → Option Nat) (alive : Nat → Bool) : Nat → Nat → Prop :=
  Relation.ReflTransGen fun p c => parent c = some p ∧ alive c = true

/-- What an observer knows: from which token a token was derived, and how many wake-ups there had
been when a future was registered. -/
structure Memory where
  parent : Nat → Option Nat
  since : Nat → Nat

namespace Memory

/-- Nothing is known at the start. -/
def start : Memory := ⟨fun _ => none, fun _ => 0⟩

/-- What is known after a step. -/
def record (m : Memory) (w : World) : Event → Memory
  | .childToken c =>
    if w.hasToken c then { m with parent := update m.parent w.nodes.length (some c) }
    else m
  | .poll k _ =>
    match w.futures.get? k with
    | some ⟨_, none⟩ => { m with since := update m.since k w.wakes.length }
    | _ => m
  | _ => m

/-- A token was derived from another one, in any number of steps. -/
def Derived (m : Memory) : Nat → Nat → Prop :=
  Relation.ReflTransGen fun p c => m.parent c = some p

/-- A token was derived from another one, and all the states behind that one are still there. -/
def Linked (m : Memory) (w : World) : Nat → Nat → Prop := Reach m.parent w.isAlive

theorem Linked.derived {m : Memory} {w : World} {t c : Nat} (h : m.Linked w t c) : m.Derived t c :=
  Relation.ReflTransGen.mono (fun _ _ hc => hc.1) _ _ h

end Memory

namespace World

/-! ## How far a cancellation goes -/

/-- The state was not cancelled, and now it is. -/
structure Turned (w w' : World) (c : Nat) (n : Node) : Prop where
  before : w.nodes[c]? = some n
  open_ : n.cancelled = false
  after : w'.nodes[c]? = some n.marked

/-- What a cancellation does: it cancels some states, all of them in `S`, with the children that are
there, and wakes the tasks that wait for them. -/
structure Spread (parent : Nat → Option Nat) (S : Nat → Prop) (w w' : World) : Prop where
  node : ∀ c, w'.nodes[c]? = w.nodes[c]? ∨ ∃ n, Turned w w' c n ∧ S c
  closed : ∀ p n, Turned w w' p n → ∀ c, parent c = some p → w.isAlive c = true →
    w'.isCancelled c = true
  woken : ∃ more, w'.wakes = w.wakes ++ more ∧
    ∀ x, x ∈ more ↔ ∃ c n, Turned w w' c n ∧ x ∈ n.waiters
  futures : w'.futures = w.futures

/-- What a cancellation relies on: a state that is there and not cancelled knows its children that
are there, and children are younger than their parents. -/
structure Knows (parent : Nat → Option Nat) (bound : Nat) (w : World) : Prop where
  younger : ∀ c p, parent c = some p → p < c ∧ c < bound
  own : ∀ p n, w.nodes[p]? = some n → ∀ c ∈ n.children, parent c = some p
  all : ∀ p n, w.nodes[p]? = some n → n.cancelled = false → 0 < n.strong →
    ∀ c, parent c = some p → w.isAlive c = true → c ∈ n.children

section

variable {parent : Nat → Option Nat} {S S' : Nat → Prop} {w w' w'' : World} {bound : Nat}

variable {c t : Nat} {n : Node} {g : Node → Node}

theorem isAlive_iff : w.isAlive c = true ↔ ∃ n, w.nodes[c]? = some n ∧ 0 < n.strong := by
  rw [isAlive]
  cases w.nodes[c]? <;> simp

theorem isCancelled_iff :
    w.isCancelled c = true ↔ ∃ n, w.nodes[c]? = some n ∧ n.cancelled = true := by
  rw [isCancelled]
  cases w.nodes[c]? <;> simp

theorem Turned.isCancelled (h : Turned w w' c n) : w'.isCancelled c = true :=
  isCancelled_iff.mpr ⟨_, h.after, rfl⟩

/-- A state turns once. -/
theorem Turned.not_marked {m : Node} (h : Turned w w' c n) : w.nodes[c]? ≠ some m.marked := by
  intro hm
  have hopen := h.open_
  rw [some.inj (h.before.symm.trans hm)] at hopen
  cases hopen

theorem Spread.refl (w : World) : Spread parent S w w where
  node _ := .inl rfl
  closed p n h := absurd h.after h.not_marked
  woken := by
    refine ⟨[], (append_nil _).symm, fun x => ⟨fun hx => absurd hx not_mem_nil, ?_⟩⟩
    rintro ⟨c, n, h, -⟩
    exact absurd h.after h.not_marked
  futures := rfl

section

variable (h : Spread parent S w w')

include h

theorem Spread.isAlive (c : Nat) : w'.isAlive c = w.isAlive c := by
  rw [World.isAlive, World.isAlive]
  rcases h.node c with heq | ⟨n, hturned, -⟩
  · rw [heq]
  · rw [hturned.after, hturned.before]
    rfl

theorem Spread.length_eq : w'.nodes.length = w.nodes.length := by
  have hle : ∀ c, w'.nodes.length ≤ c ↔ w.nodes.length ≤ c := by
    intro c
    rw [← List.getElem?_eq_none_iff, ← List.getElem?_eq_none_iff]
    rcases h.node c with heq | ⟨n, hn, -⟩
    · rw [heq]
    · simp [hn.after, hn.before]
  exact Nat.le_antisymm ((hle _).mpr le_rfl) ((hle _).mp le_rfl)

theorem Spread.isCancelled (hc : w.isCancelled c = true) : w'.isCancelled c = true := by
  rcases h.node c with heq | ⟨n, hturned, -⟩
  · rw [World.isCancelled, heq]
    exact hc
  · exact hturned.isCancelled

/-- A state that is not cancelled is as it was. -/
theorem Spread.of_open (hn : w'.nodes[c]? = some n) (hopen : n.cancelled = false) :
    w.nodes[c]? = some n := by
  rcases h.node c with heq | ⟨m, hturned, -⟩
  · rw [← heq, hn]
  · rw [some.inj (hn.symm.trans hturned.after)] at hopen
    cases hopen

theorem Spread.mono (hS : ∀ c, S c → S' c) : Spread parent S' w w' :=
  ⟨fun c => (h.node c).imp_right fun ⟨n, hturned, hc⟩ => ⟨n, hturned, hS c hc⟩, h.closed, h.woken,
    h.futures⟩

/-- A state turns in one of two cancellations. -/
theorem turned_trans (h' : Spread parent S w' w'') :
    Turned w w'' c n ↔ Turned w w' c n ∨ Turned w' w'' c n := by
  constructor
  · intro hturned
    rcases h.node c with heq | ⟨m, hm, -⟩
    · exact .inr ⟨heq.trans hturned.before, hturned.open_, hturned.after⟩
    · rw [some.inj (hturned.before.symm.trans hm.before)]
      exact .inl hm
  · rintro (hturned | hturned)
    · refine ⟨hturned.before, hturned.open_, ?_⟩
      rcases h'.node c with heq | ⟨m, hm, -⟩
      · rw [heq, hturned.after]
      · exact absurd hturned.after hm.not_marked
    · exact ⟨h.of_open hturned.before hturned.open_, hturned.open_, hturned.after⟩

theorem Spread.trans (h' : Spread parent S w' w'') : Spread parent S w w'' where
  node c := by
    rcases h'.node c with heq | ⟨n, hn, hc⟩
    · rcases h.node c with heq' | ⟨n, hn, hc⟩
      · exact .inl (heq.trans heq')
      · exact .inr ⟨n, ⟨hn.before, hn.open_, heq.trans hn.after⟩, hc⟩
    · exact .inr ⟨n, (turned_trans h h').mpr (.inr hn), hc⟩
  closed p n hturned c hc halive := by
    rcases (turned_trans h h').mp hturned with hn | hn
    · exact h'.isCancelled (h.closed p n hn c hc halive)
    · exact h'.closed p n hn c hc (by rw [h.isAlive, halive])
  woken := by
    obtain ⟨more, hmore, hiff⟩ := h.woken
    obtain ⟨more', hmore', hiff'⟩ := h'.woken
    refine ⟨more ++ more', by rw [hmore', hmore, append_assoc], fun x => ?_⟩
    rw [mem_append, hiff, hiff']
    constructor
    · rintro (⟨c, n, hn, hx⟩ | ⟨c, n, hn, hx⟩)
      · exact ⟨c, n, (turned_trans h h').mpr (.inl hn), hx⟩
      · exact ⟨c, n, (turned_trans h h').mpr (.inr hn), hx⟩
    · rintro ⟨c, n, hn, hx⟩
      rcases (turned_trans h h').mp hn with hn | hn
      · exact .inl ⟨c, n, hn, hx⟩
      · exact .inr ⟨c, n, hn, hx⟩
  futures := h'.futures.trans h.futures

end

theorem Knows.spread (hk : Knows parent bound w) (h : Spread parent S w w') :
    Knows parent bound w' where
  younger := hk.younger
  own p n hn c hc := by
    rcases h.node p with heq | ⟨m, hm, -⟩
    · exact hk.own p n (heq ▸ hn) c hc
    · rw [some.inj (hn.symm.trans hm.after)] at hc
      exact absurd hc not_mem_nil
  all p n hn hopen hstrong c hc halive :=
    hk.all p n (h.of_open hn hopen) hopen hstrong c hc (h.isAlive c ▸ halive)

theorem getElem?_update (w : World) (t : Nat) (g : Node → Node) (c : Nat) :
    (w.update t g).nodes[c]? = if t = c then (w.nodes[c]?).map g else w.nodes[c]? := by
  rw [update, getElem?_modify]
  split
  · rfl
  · simp

/-- A state after a change of one. -/
theorem of_update {n' : Node} (h : (w.update t g).nodes[c]? = some n') :
    c ≠ t ∧ w.nodes[c]? = some n' ∨ c = t ∧ ∃ n, w.nodes[t]? = some n ∧ n' = g n := by
  rw [getElem?_update] at h
  split at h
  · rename_i heq
    subst heq
    obtain ⟨n, hn, rfl⟩ := map_eq_some_iff.mp h
    exact .inr ⟨rfl, n, hn, rfl⟩
  · exact .inl ⟨Ne.symm ‹¬t = c›, h⟩

/-- A property of a state that a change of one leaves alone. -/
theorem any_update {p : Node → Bool} (hp : ∀ n, p (g n) = p n) (w : World)
    (t c : Nat) : ((w.update t g).nodes[c]?).any p = (w.nodes[c]?).any p := by
  rw [getElem?_update]
  split
  · cases w.nodes[c]? with
    | none => rfl
    | some n => exact hp n
  · rfl

theorem getElem?_mark (w : World) (t : Nat) (n : Node) (c : Nat) :
    (w.mark t n).nodes[c]? = if t = c then (w.nodes[c]?).map Node.marked else w.nodes[c]? :=
  getElem?_update w t Node.marked c

@[simp] theorem isAlive_mark (w : World) (t : Nat) (n : Node) (c : Nat) :
    (w.mark t n).isAlive c = w.isAlive c := any_update (g := Node.marked) (fun _ => rfl) w t c

/-- The state `t` is marked, and then its children are taken care of. -/
theorem Spread.of_mark (ht : w.nodes[t]? = some n) (hopen : n.cancelled = false)
    (hS : S t) (h : Spread parent S (w.mark t n) w')
    (hchildren : ∀ c, parent c = some t → w.isAlive c = true → w'.isCancelled c = true) :
    Spread parent S w w' := by
  have hmark : (w.mark t n).nodes[t]? = some n.marked := by
    rw [getElem?_mark, if_pos rfl, ht]
    rfl
  have hself : Turned w w' t n := by
    refine ⟨ht, hopen, ?_⟩
    rcases h.node t with heq | ⟨m, hm, -⟩
    · rw [heq, hmark]
    · exact absurd hmark hm.not_marked
  have hother : ∀ c, c ≠ t → (w.mark t n).nodes[c]? = w.nodes[c]? := by
    intro c hct
    rw [getElem?_mark, if_neg (Ne.symm hct)]
  have hturned : ∀ c m, Turned w w' c m ↔ c = t ∧ m = n ∨ Turned (w.mark t n) w' c m := by
    intro c m
    constructor
    · intro hm
      by_cases hct : c = t
      · subst hct
        exact .inl ⟨rfl, some.inj (hm.before.symm.trans ht)⟩
      · exact .inr ⟨(hother c hct).trans hm.before, hm.open_, hm.after⟩
    · rintro (⟨rfl, rfl⟩ | hm)
      · exact hself
      · have hct : c ≠ t := by
          rintro rfl
          exact hm.not_marked hmark
        exact ⟨(hother c hct).symm.trans hm.before, hm.open_, hm.after⟩
  refine ⟨fun c => ?_, fun p m hm c hc hc' => ?_, ?_, h.futures⟩
  · by_cases hct : c = t
    · subst hct
      exact .inr ⟨n, hself, hS⟩
    · rcases h.node c with heq | ⟨m, hm, hc⟩
      · exact .inl (heq.trans (hother c hct))
      · exact .inr ⟨m, (hturned c m).mpr (.inr hm), hc⟩
  · rcases (hturned p m).mp hm with ⟨rfl, rfl⟩ | hm
    · exact hchildren c hc hc'
    · exact h.closed p m hm c hc (by rw [isAlive_mark, hc'])
  · obtain ⟨more, hmore, hiff⟩ := h.woken
    refine ⟨n.waiters ++ more, by rw [hmore, mark, append_assoc], fun x => ?_⟩
    rw [mem_append, hiff]
    constructor
    · rintro (hx | ⟨c, m, hm, hx⟩)
      · exact ⟨t, n, hself, hx⟩
      · exact ⟨c, m, (hturned c m).mpr (.inr hm), hx⟩
    · rintro ⟨c, m, hm, hx⟩
      rcases (hturned c m).mp hm with ⟨rfl, rfl⟩ | hm
      · exact .inl hx
      · exact .inr ⟨c, m, hm, hx⟩

theorem Knows.mark (hk : Knows parent bound w) (ht : w.nodes[t]? = some n) :
    Knows parent bound (w.mark t n) := by
  have hnode : ∀ (p : Nat) (m : Node), (w.mark t n).nodes[p]? = some m →
      w.nodes[p]? = some m ∨ m = n.marked := by
    intro p m hm
    rcases of_update hm with ⟨-, hm⟩ | ⟨-, n', hn', rfl⟩
    · exact .inl hm
    · rw [some.inj (hn'.symm.trans ht)]
      exact .inr rfl
  refine ⟨hk.younger, fun p m hm c hc => ?_, fun p m hm hopen hstrong c hc halive => ?_⟩
  · rcases hnode p m hm with hm | rfl
    · exact hk.own p m hm c hc
    · exact absurd hc not_mem_nil
  · rcases hnode p m hm with hm | rfl
    · exact hk.all p m hm hopen hstrong c hc (isAlive_mark w t n c ▸ halive)
    · cases hopen

end

section

variable {parent : Nat → Option Nat} {alive : Nat → Bool} {bound fuel t : Nat} {w : World}

/-- What the cancellation of one state gives for a whole list of children of `t`. -/
theorem spread_children {cs : List Nat} (hk : Knows parent bound w)
    (halive : w.isAlive = alive) (hcs : ∀ c ∈ cs, parent c = some t)
    (ih : ∀ (w : World) (c : Nat), Knows parent bound w → w.isAlive = alive → alive c = true →
      parent c = some t →
      Spread parent (Reach parent alive c) w (cancelState fuel w c) ∧
        (cancelState fuel w c).isCancelled c = true) :
    Spread parent (Reach parent alive t) w
        (cs.foldl (fun w c => if w.isAlive c then cancelState fuel w c else w) w) ∧
      ∀ c ∈ cs, alive c = true →
        (cs.foldl (fun w c => if w.isAlive c then cancelState fuel w c else w) w).isCancelled c =
          true := by
  induction cs generalizing w with
  | nil => exact ⟨.refl w, fun c hc => absurd hc not_mem_nil⟩
  | cons c cs ihcs =>
    have hcs' := forall_mem_cons.mp hcs
    rw [foldl_cons]
    by_cases hc : w.isAlive c = true
    · rw [if_pos hc]
      have hc' : alive c = true := halive ▸ hc
      obtain ⟨hspread, hcancelled⟩ := ih w c hk halive hc' hcs'.1
      have halive' : (cancelState fuel w c).isAlive = alive := by
        rw [← halive]
        exact funext hspread.isAlive
      obtain ⟨hrest, hall⟩ := ihcs (hk.spread hspread) halive' hcs'.2
      have hmono : Spread parent (Reach parent alive t) w (cancelState fuel w c) :=
        hspread.mono fun d hd => .head ⟨hcs'.1, hc'⟩ hd
      refine ⟨hmono.trans hrest, forall_mem_cons.mpr ⟨fun _ => ?_, hall⟩⟩
      exact hrest.isCancelled hcancelled
    · rw [if_neg hc]
      obtain ⟨hrest, hall⟩ := ihcs hk halive hcs'.2
      refine ⟨hrest, forall_mem_cons.mpr ⟨fun hc' => ?_, hall⟩⟩
      exact absurd (halive ▸ hc') hc

/-- **A cancellation reaches what is linked to its token**, and nothing else. -/
theorem spread_cancelState (hk : Knows parent bound w)
    (halive : w.isAlive = alive) (ht : alive t = true) (hbound : t < bound)
    (hfuel : bound ≤ t + fuel) :
    Spread parent (Reach parent alive t) w (cancelState fuel w t) ∧
      (cancelState fuel w t).isCancelled t = true := by
  induction fuel generalizing w t with
  | zero => exact absurd hfuel (by omega)
  | succ fuel ih =>
    obtain ⟨n, hn, hstrong⟩ := isAlive_iff.mp (halive ▸ ht)
    rw [cancelState, hn]
    dsimp only
    by_cases hcancelled : n.cancelled = true
    · rw [if_pos hcancelled]
      exact ⟨.refl w, isCancelled_iff.mpr ⟨n, hn, hcancelled⟩⟩
    · rw [if_neg hcancelled]
      have hopen : n.cancelled = false := Bool.eq_false_iff.mpr hcancelled
      have hmark : (w.mark t n).isAlive = alive := by
        rw [← halive]
        exact funext (isAlive_mark w t n)
      -- children are younger, so that less fuel is enough for them
      obtain ⟨hrest, hall⟩ := spread_children (hk.mark hn) hmark (hk.own t n hn)
        fun w' c hk' halive' hc hparent =>
          have hlt := hk.younger c t hparent
          ih hk' halive' hc hlt.2 (by omega)
      refine ⟨.of_mark hn hopen .refl hrest fun c hc hc' => ?_, ?_⟩
      · exact hall c (hk.all t n hn hopen hstrong c hc hc') (halive ▸ hc')
      · refine hrest.isCancelled (isCancelled_iff.mpr ⟨n.marked, ?_, rfl⟩)
        rw [getElem?_mark, if_pos rfl, hn]
        rfl

end

/-- A change of one state that leaves the flag alone. -/
theorem isCancelled_of_update {w w' : World} {t : Nat} {g : Node → Node}
    (hnodes : w'.nodes = (w.update t g).nodes) (hcancelled : ∀ n, (g n).cancelled = n.cancelled)
    (c : Nat) : w'.isCancelled c = w.isCancelled c := by
  rw [isCancelled, hnodes]
  exact any_update hcancelled w t c

/-! ## The tree -/

/-- What is true of the states and the tokens they were derived from. -/
structure Tree (m : Memory) (w : World) : Prop where
  knows : Knows m.parent w.nodes.length w
  inherited : ∀ p c, m.parent c = some p → w.isCancelled p = true → w.isAlive c = true →
    w.isCancelled c = true

namespace Tree

variable {m : Memory} {w w' : World} {c p t : Nat} {n : Node} {g : Node → Node}

theorem getElem?_new (w : World) (h : w.new.nodes[c]? = some n) :
    w.nodes[c]? = some n ∨ c = w.nodes.length ∧ n = .fresh := by
  rw [World.new, getElem?_append] at h
  split at h
  · exact .inl h
  · have hc : c = w.nodes.length := by
      have := (List.getElem?_eq_some_iff.mp h).1
      rw [length_singleton] at this
      omega
    rw [hc, Nat.sub_self, getElem?_cons_zero] at h
    exact .inr ⟨hc, (some.inj h).symm⟩

theorem getElem?_new_of_lt (h : c < w.nodes.length) : w.new.nodes[c]? = w.nodes[c]? :=
  getElem?_append_left h

theorem isAlive_new_of_lt (h : c < w.nodes.length) : w.new.isAlive c = w.isAlive c := by
  rw [isAlive, isAlive, getElem?_new_of_lt h]

theorem isCancelled_new_of_lt (h : c < w.nodes.length) :
    w.new.isCancelled c = w.isCancelled c := by
  rw [isCancelled, isCancelled, getElem?_new_of_lt h]

theorem length_new (w : World) : w.new.nodes.length = w.nodes.length + 1 := length_append

section

variable (h : Tree m w)

include h

theorem parent_eq_none (hc : w.nodes.length ≤ c) : m.parent c = none := by
  cases hp : m.parent c with
  | none => rfl
  | some p => exact absurd (h.knows.younger c p hp).2 (Nat.not_lt.mpr hc)

/-- A change of one state that keeps its children as long as it is there. -/
theorem update (hnodes : w'.nodes = (w.update t g).nodes)
    (hcancelled : ∀ n, (g n).cancelled = n.cancelled)
    (hstrong : ∀ n, w.nodes[t]? = some n → 0 < (g n).strong → 0 < n.strong ∧ (g n).children = n.children)
    (hchildren : ∀ n, ∀ c ∈ (g n).children, c ∈ n.children) : Tree m w' := by
  have hnode : ∀ {c : Nat} {n' : Node}, w'.nodes[c]? = some n' →
      c ≠ t ∧ w.nodes[c]? = some n' ∨ c = t ∧ ∃ n, w.nodes[t]? = some n ∧ n' = g n :=
    fun hn' => of_update (hnodes ▸ hn')
  have hlength : w'.nodes.length = w.nodes.length := by
    rw [hnodes, World.update, length_modify]
  have halive : ∀ c, w'.isAlive c = true → w.isAlive c = true := by
    intro c hc
    obtain ⟨n', hn', hpos⟩ := isAlive_iff.mp hc
    rcases hnode hn' with ⟨-, hn⟩ | ⟨rfl, n, hn, rfl⟩
    · exact isAlive_iff.mpr ⟨n', hn, hpos⟩
    · exact isAlive_iff.mpr ⟨n, hn, (hstrong n hn hpos).1⟩
  have hsame := isCancelled_of_update hnodes hcancelled
  refine ⟨⟨hlength ▸ h.knows.younger, fun p n' hn' c hc => ?_,
    fun p n' hn' hopen hpos c hc hc' => ?_⟩,
    fun p c hc hp hc' => ?_⟩
  · rcases hnode hn' with ⟨-, hn⟩ | ⟨rfl, n, hn, rfl⟩
    · exact h.knows.own p n' hn c hc
    · exact h.knows.own p n hn c (hchildren n c hc)
  · rcases hnode hn' with ⟨-, hn⟩ | ⟨rfl, n, hn, rfl⟩
    · exact h.knows.all p n' hn hopen hpos c hc (halive c hc')
    · obtain ⟨hpos', heq⟩ := hstrong n hn hpos
      rw [heq]
      exact h.knows.all p n hn (hcancelled n ▸ hopen) hpos' c hc (halive c hc')
  · rw [hsame]
    exact h.inherited p c hc (hsame p ▸ hp) (halive c hc')

theorem spread {S : Nat → Prop} (hs : Spread m.parent S w w') : Tree m w' := by
  refine ⟨hs.length_eq ▸ h.knows.spread hs, fun p c hc hp hc' => ?_⟩
  rw [hs.isAlive] at hc'
  rcases hs.node p with heq | ⟨n, hn, -⟩
  · rw [World.isCancelled, heq] at hp
    exact hs.isCancelled (h.inherited p c hc hp hc')
  · exact hs.closed p n hn c hc hc'

theorem spread_cancel (ht : w.isAlive t = true) :
    Spread m.parent (m.Linked w t) w (w.cancel t) ∧ (w.cancel t).isCancelled t = true := by
  obtain ⟨n, hn, -⟩ := isAlive_iff.mp ht
  have hlt : t < w.nodes.length := (List.getElem?_eq_some_iff.mp hn).1
  exact spread_cancelState h.knows rfl ht hlt (Nat.le_add_left _ _)

theorem new : Tree m w.new where
  knows := by
    refine ⟨fun c p hc => ?_, fun p n hn c hc => ?_, fun p n hn hopen hpos c hc halive => ?_⟩
    · have := h.knows.younger c p hc
      rw [length_new]
      omega
    · rcases getElem?_new w hn with hn | ⟨-, rfl⟩
      · exact h.knows.own p n hn c hc
      · exact absurd hc not_mem_nil
    · have hlt := h.knows.younger c p hc
      rw [isAlive_new_of_lt hlt.2] at halive
      rcases getElem?_new w hn with hn | ⟨rfl, -⟩
      · exact h.knows.all p n hn hopen hpos c hc halive
      · omega
  inherited p c hc hp halive := by
    have hlt := h.knows.younger c p hc
    rw [isAlive_new_of_lt hlt.2] at halive
    rw [isCancelled_new_of_lt (by omega)] at hp
    rw [isCancelled_new_of_lt hlt.2]
    exact h.inherited p c hc hp halive

end

theorem parent_update {parent : Nat → Option Nat} {d q : Nat}
    (h : Function.update parent c (some p) d = some q) :
    d = c ∧ q = p ∨ d ≠ c ∧ parent d = some q := by
  rcases eq_or_ne d c with rfl | hne
  · rw [update_self] at h
    exact .inl ⟨rfl, (some.inj h).symm⟩
  · rw [update_of_ne hne] at h
    exact .inr ⟨hne, h⟩

/-- The child of a token that is cancelled. -/
theorem adopt_cancelled (h : Tree m w) (hc : m.parent c = none) (hlt : p < c)
    (hlen : c < w.nodes.length) (hp : w.isCancelled p = true) (hcancelled : w.isCancelled c = true) :
    Tree { m with parent := Function.update m.parent c (some p) } w := by
  refine ⟨⟨fun d q hd => ?_, fun q n hn d hd => ?_, fun q n hn hopen hpos d hd halive => ?_⟩,
    fun q d hd hq halive => ?_⟩
  · rcases parent_update hd with ⟨rfl, rfl⟩ | ⟨-, hd⟩
    · exact ⟨hlt, hlen⟩
    · exact h.knows.younger d q hd
  · have hd' := h.knows.own q n hn d hd
    have hne : d ≠ c := by
      rintro rfl
      rw [hc] at hd'
      cases hd'
    dsimp only
    rw [Function.update_of_ne hne]
    exact hd'
  · rcases parent_update hd with ⟨rfl, rfl⟩ | ⟨-, hd⟩
    · obtain ⟨n', hn', hcancelled'⟩ := isCancelled_iff.mp hp
      rw [some.inj (hn'.symm.trans hn), hopen] at hcancelled'
      cases hcancelled'
    · exact h.knows.all q n hn hopen hpos d hd halive
  · rcases parent_update hd with ⟨rfl, rfl⟩ | ⟨-, hd⟩
    · exact hcancelled
    · exact h.inherited q d hd hq halive

/-- The child of a token that is not cancelled. -/
theorem adopt_open (h : Tree m w) (hp : w.nodes[p]? = some n)
    (hopen : n.cancelled = false) :
    Tree { m with parent := Function.update m.parent w.nodes.length (some p) }
      (w.new.update p fun n =>
        { n with children := n.children.filter w.isAlive ++ [w.nodes.length] }) := by
  have hlt : p < w.nodes.length := (List.getElem?_eq_some_iff.mp hp).1
  set g : Node → Node := fun n =>
    { n with children := n.children.filter w.isAlive ++ [w.nodes.length] } with hg
  have hnode : ∀ {q : Nat} {n' : Node}, (w.new.update p g).nodes[q]? = some n' →
      q = p ∧ n' = g n ∨ q ≠ p ∧ w.nodes[q]? = some n' ∨ q = w.nodes.length ∧ n' = .fresh := by
    intro q n' hn'
    rcases of_update hn' with ⟨hne, hn'⟩ | ⟨rfl, n'', hn'', rfl⟩
    · exact .inr ((getElem?_new w hn').imp_left fun hn' => ⟨hne, hn'⟩)
    · rw [getElem?_new_of_lt hlt, hp] at hn''
      exact .inl ⟨rfl, by rw [some.inj hn'']⟩
  have halive : ∀ {d}, d < w.nodes.length → (w.new.update p g).isAlive d = w.isAlive d :=
    fun hd => (any_update (g := g) (fun _ => rfl) w.new p _).trans (isAlive_new_of_lt hd)
  have hcancelled : ∀ {d}, d < w.nodes.length →
      (w.new.update p g).isCancelled d = w.isCancelled d :=
    fun hd => (any_update (g := g) (fun _ => rfl) w.new p _).trans (isCancelled_new_of_lt hd)
  have hlength : (w.new.update p g).nodes.length = w.nodes.length + 1 := by
    rw [World.update, length_modify, length_new]
  refine ⟨⟨fun d q hd => ?_, fun q n' hn' d hd => ?_, fun q n' hn' hopen' hpos d hd hd' => ?_⟩,
    fun q d hd hq hd' => ?_⟩
  · rw [hlength]
    rcases parent_update hd with ⟨rfl, rfl⟩ | ⟨-, hd⟩
    · exact ⟨hlt, Nat.lt_succ_self _⟩
    · have := h.knows.younger d q hd
      omega
  · -- the children of a state are its old ones, or the new one
    rcases hnode hn' with ⟨rfl, rfl⟩ | ⟨-, hn'⟩ | ⟨-, rfl⟩
    · rcases mem_append.mp hd with hd | hd
      · have hd' := h.knows.own q n hp d (mem_filter.mp hd).1
        have hne : d ≠ w.nodes.length := (h.knows.younger d q hd').2.ne
        exact (Function.update_of_ne hne _ _).trans hd'
      · rw [mem_singleton.mp hd]
        exact update_self _ _ _
    · have hd' := h.knows.own q n' hn' d hd
      have hne : d ≠ w.nodes.length := (h.knows.younger d q hd').2.ne
      exact (Function.update_of_ne hne _ _).trans hd'
    · exact absurd hd not_mem_nil
  · rcases parent_update hd with ⟨rfl, rfl⟩ | ⟨-, hparent⟩
    · rcases hnode hn' with ⟨-, rfl⟩ | ⟨hne, -⟩ | ⟨heq, -⟩
      · exact mem_append_right _ mem_cons_self
      · exact absurd rfl hne
      · omega
    · have hlt' := h.knows.younger d q hparent
      rw [halive hlt'.2] at hd'
      rcases hnode hn' with ⟨rfl, rfl⟩ | ⟨-, hn'⟩ | ⟨rfl, -⟩
      · refine mem_append_left _ (mem_filter.mpr ⟨?_, hd'⟩)
        exact h.knows.all q n hp hopen hpos d hparent hd'
      · exact h.knows.all q n' hn' hopen' hpos d hparent hd'
      · omega
  · rcases parent_update hd with ⟨rfl, rfl⟩ | ⟨-, hd⟩
    · rw [hcancelled hlt, World.isCancelled, hp] at hq
      exact absurd (hopen.symm.trans hq) Bool.false_ne_true
    · have hlt' := h.knows.younger d q hd
      rw [halive hlt'.2] at hd'
      rw [hcancelled (by omega)] at hq
      rw [hcancelled hlt'.2]
      exact h.inherited q d hd hq hd'

end Tree

/-! ## The waiting tasks -/

/-- The number of futures on a state whose registration is of a kind. -/
def waiting (w : World) (c : Nat) (p : Option Nat → Bool) : Nat :=
  w.futures.weight fun f => if f.state = c ∧ p f.registered = true then 1 else 0

/-- What is true of the futures and the states they wait for. -/
structure Tally (w : World) : Prop where
  there : ∀ k f, w.futures.get? k = some f → f.state < w.nodes.length
  held : ∀ c n, w.nodes[c]? = some n → n.futures = w.waiting c fun _ => true
  waits : ∀ c n, w.nodes[c]? = some n → n.cancelled = false →
    ∀ id, n.waiters.count id = w.waiting c fun r => r == some id

namespace Tally

variable {w w' : World} {t k : Nat} {n : Node} {g : Node → Node}

theorem waiting_le (w : World) (c : Nat) (p : Option Nat → Bool) :
    w.waiting c p ≤ w.waiting c fun _ => true := by
  refine Table.weight_le_weight _ fun f => ?_
  split
  · rename_i h
    rw [if_pos ⟨h.1, rfl⟩]
  · exact Nat.zero_le _

/-- A future that waits is counted. -/
theorem waiting_pos {f : CancelledFuture} {p : Option Nat → Bool}
    (hf : w.futures.get? k = some f) (hp : p f.registered = true) : 0 < w.waiting f.state p := by
  have := w.futures.weight_erase
    (fun g => if g.state = f.state ∧ p g.registered = true then 1 else 0) k
  rw [hf, map_some, getD_some, if_pos ⟨rfl, hp⟩] at this
  rw [waiting]
  omega

/-- A registered task waits in the state, as long as that is not cancelled. -/
theorem mem_waiters (h : Tally w) {f : CancelledFuture} {id : Nat}
    (hn : w.nodes[f.state]? = some n) (hopen : n.cancelled = false)
    (hf : w.futures.get? k = some f) (hid : f.registered = some id) : id ∈ n.waiters := by
  refine count_pos_iff.mp ?_
  rw [h.waits f.state n hn hopen id]
  exact waiting_pos hf (by rw [hid, beq_self_eq_true])

/-- A state that is freed has no waiting tasks. -/
theorem count_freed {id : Nat} (h : n.waiters.count id ≤ n.futures) :
    n.freed.waiters.count id = n.waiters.count id := by
  rw [Node.freed]
  split
  · rename_i hzero
    rw [Node.strong] at hzero
    rw [count_nil]
    omega
  · rfl

section

variable (h : Tally w)

include h

/-- A change of one state and of the futures on it. -/
theorem update (hnodes : w'.nodes = (w.update t g).nodes)
    (hthere : ∀ k f, w'.futures.get? k = some f → f.state < w.nodes.length)
    (hother : ∀ c p, c ≠ t → w'.waiting c p = w.waiting c p)
    (hheld : ∀ n, w.nodes[t]? = some n → (g n).futures = w'.waiting t fun _ => true)
    (hwaits : ∀ n, w.nodes[t]? = some n → (g n).cancelled = false →
      ∀ id, (g n).waiters.count id = w'.waiting t fun r => r == some id) : Tally w' := by
  refine ⟨fun k f hf => ?_, fun c n' hn' => ?_, fun c n' hn' hopen id => ?_⟩
  · rw [hnodes, World.update, length_modify]
    exact hthere k f hf
  · rcases of_update (hnodes ▸ hn') with ⟨hne, hn⟩ | ⟨rfl, n, hn, rfl⟩
    · rw [hother c _ hne]
      exact h.held c n' hn
    · exact hheld n hn
  · rcases of_update (hnodes ▸ hn') with ⟨hne, hn⟩ | ⟨rfl, n, hn, rfl⟩
    · rw [hother c _ hne]
      exact h.waits c n' hn hopen id
    · exact hwaits n hn hopen id

/-- A change of one state that leaves the futures alone. -/
theorem update_node
    (hfutures : ∀ n, (g n).futures = n.futures) (hcancelled : ∀ n, (g n).cancelled = n.cancelled)
    (hwaiters : ∀ n, (∀ id, n.waiters.count id ≤ n.futures) →
      ∀ id, (g n).waiters.count id = n.waiters.count id) :
    Tally (w.update t g) := by
  refine h.update rfl h.there (fun c p _ => rfl) (fun n hn => ?_) fun n hn hopen id => ?_
  · rw [hfutures]
    exact h.held t n hn
  · rw [hcancelled] at hopen
    rw [hwaiters n (fun id => ?_) id]
    · exact h.waits t n hn hopen id
    · rw [h.waits t n hn hopen, h.held t n hn]
      exact waiting_le w t _

theorem new : Tally w.new := by
  refine ⟨fun k f hf => ?_, fun c n hn => ?_, fun c n hn hopen id => ?_⟩
  · rw [Tree.length_new]
    exact Nat.lt_succ_of_lt (h.there k f hf)
  · rcases Tree.getElem?_new w hn with hn | ⟨rfl, rfl⟩
    · exact h.held c n hn
    · exact (Table.weight_eq_zero fun k f hf => if_neg fun heq => (h.there k f hf).ne heq.1).symm
  · rcases Tree.getElem?_new w hn with hn | ⟨rfl, rfl⟩
    · exact h.waits c n hn hopen id
    · exact (Table.weight_eq_zero fun k f hf => if_neg fun heq => (h.there k f hf).ne heq.1).symm

theorem spread {parent : Nat → Option Nat} {S : Nat → Prop} (hs : Spread parent S w w') :
    Tally w' := by
  have hwaiting : ∀ c p, w'.waiting c p = w.waiting c p := by
    intro c p
    rw [waiting, waiting, hs.futures]
  refine ⟨fun k f hf => ?_, fun c n hn => ?_, fun c n hn hopen id => ?_⟩
  · rw [hs.length_eq]
    exact h.there k f (hs.futures ▸ hf)
  · rw [hwaiting]
    rcases hs.node c with heq | ⟨m, hm, -⟩
    · exact h.held c n (heq ▸ hn)
    · rw [some.inj (hn.symm.trans hm.after)]
      exact h.held c m hm.before
  · rw [hwaiting]
    exact h.waits c n (hs.of_open hn hopen) hopen id

theorem cancelledFuture {c : Nat} (hc : c < w.nodes.length) (hk : w.futures.get? k = none) :
    Tally (w.cancelledFuture c k) := by
  have hinsert : ∀ d p, (w.cancelledFuture c k).waiting d p =
      w.waiting d p + if c = d ∧ p none = true then 1 else 0 := by
    intro d p
    have := w.futures.weight_insert
      (fun f => if f.state = d ∧ p f.registered = true then 1 else 0) k ⟨c, none⟩
    rw [hk] at this
    exact this
  refine h.update rfl (fun j f hf => ?_) (fun d p hne => ?_) (fun n hn => ?_)
    fun n hn hopen id => ?_
  · rw [World.cancelledFuture, Table.get?_insert] at hf
    split at hf
    · rw [← some.inj hf]
      exact hc
    · exact h.there j f hf
  · rw [hinsert, if_neg fun heq => hne heq.1.symm]
    rfl
  · rw [hinsert, if_pos ⟨rfl, rfl⟩, ← h.held c n hn]
  · rw [hinsert, if_neg (fun heq => by cases heq.2), ← h.waits c n hn hopen id]
    rfl

theorem pollCancelled (k task : Nat) : Tally (w.pollCancelled k task).1 := by
  rw [World.pollCancelled]
  cases hk : w.futures.get? k with
  | none => exact h
  | some f =>
    obtain ⟨c, registered⟩ := f
    dsimp only
    by_cases hcancelled : w.isCancelled c = true
    · rw [if_pos hcancelled]
      exact h
    by_cases hnone : registered = none
    · subst hnone
      rw [if_neg hcancelled, if_pos rfl]
      have hinsert : ∀ d p, (w.futures.insert k ⟨c, some task⟩).weight
            (fun f => if f.state = d ∧ p f.registered = true then 1 else 0) +
            (if c = d ∧ p none = true then 1 else 0) =
          w.waiting d p + if c = d ∧ p (some task) = true then 1 else 0 := by
        intro d p
        have := w.futures.weight_insert
          (fun f => if f.state = d ∧ p f.registered = true then 1 else 0) k ⟨c, some task⟩
        rw [hk] at this
        exact this
      refine h.update rfl (fun j f hf => ?_) (fun d p hne => ?_) (fun n hn => ?_)
        fun n hn hopen id => ?_
      · rw [Table.get?_insert] at hf
        split at hf
        · rw [← some.inj hf]
          exact h.there k ⟨c, none⟩ hk
        · exact h.there j f hf
      · have := hinsert d p
        rw [if_neg fun heq => hne heq.1.symm, if_neg fun heq => hne heq.1.symm] at this
        exact this
      · have := hinsert c fun _ => true
        rw [if_pos ⟨rfl, rfl⟩] at this
        exact (h.held c n hn).trans (Nat.add_right_cancel this).symm
      · have := hinsert c fun r => r == some id
        rw [if_neg fun heq => by cases heq.2] at this
        dsimp only
        rw [count_append, count_singleton, h.waits c n hn hopen id]
        refine Eq.trans ?_ this.symm
        by_cases hid : task = id
        · rw [if_pos (by simp [hid]), if_pos ⟨rfl, by simp [hid]⟩]
        · rw [if_neg (by simp [hid]), if_neg (by simp [hid])]
    · rw [if_neg hcancelled, if_neg hnone]
      exact h

theorem dropCancelled (k : Nat) : Tally (w.dropCancelled k) := by
  rw [World.dropCancelled]
  cases hk : w.futures.get? k with
  | none => exact h
  | some f =>
    obtain ⟨c, registered⟩ := f
    dsimp only
    have herase : ∀ d p, (w.futures.erase k).weight
          (fun f => if f.state = d ∧ p f.registered = true then 1 else 0) +
          (if c = d ∧ p registered = true then 1 else 0) = w.waiting d p := by
      intro d p
      have := w.futures.weight_erase
        (fun f => if f.state = d ∧ p f.registered = true then 1 else 0) k
      rw [hk] at this
      exact this
    have hheld : ∀ {n}, w.nodes[c]? = some n → n.futures - 1 = (w.futures.erase k).weight
        (fun f => if f.state = c ∧ true = true then 1 else 0) := by
      intro n hn
      have := herase c fun _ => true
      rw [if_pos ⟨rfl, rfl⟩, ← h.held c n hn] at this
      exact Nat.sub_eq_of_eq_add this.symm
    refine h.update rfl (fun j f hf => ?_) (fun d p hne => ?_) (fun n hn => ?_)
      fun n hn hopen id => ?_
    · exact h.there j f (Table.get?_erase_eq_some hf).2
    · have := herase d p
      rw [if_neg fun heq => hne heq.1.symm] at this
      exact this
    · rw [Node.futures_freed]
      exact hheld hn
    · rw [Node.cancelled_freed] at hopen
      have hcount : (match registered with
          | none => n.waiters
          | some id =>
            if n.cancelled = false ∧ id ∈ n.waiters then swapRemove n.waiters (n.waiters.idxOf id)
            else n.waiters).count id = (w.futures.erase k).weight
              (fun f => if f.state = c ∧ (f.registered == some id) = true then 1 else 0) := by
        have := herase c fun r => r == some id
        cases registered with
        | none =>
          rw [if_neg (fun heq => by cases heq.2), ← h.waits c n hn hopen id] at this
          exact this.symm
        | some task =>
          dsimp only at this ⊢
          by_cases hid : task = id
          · subst hid
            rw [if_pos ⟨rfl, beq_self_eq_true _⟩, ← h.waits c n hn hopen task] at this
            have hmem : task ∈ n.waiters := count_pos_iff.mp (by omega)
            rw [if_pos ⟨hopen, hmem⟩, (swapRemove_idxOf_perm hmem).count_eq, count_erase_self]
            omega
          · rw [if_neg (by simp [hid]), ← h.waits c n hn hopen id] at this
            split
            · rename_i hmem
              rw [(swapRemove_idxOf_perm hmem.2).count_eq, count_erase_of_ne (Ne.symm hid)]
              exact this.symm
            · exact this.symm
      refine (count_freed ?_).trans hcount
      rw [hcount, hheld hn]
      exact waiting_le { w with futures := w.futures.erase k } c fun r => r == some id

end

end Tally

/-- A task that was registered for a state that is cancelled has been woken since. -/
structure Told (m : Memory) (w : World) : Prop where
  woken : ∀ k f id, w.futures.get? k = some f → f.registered = some id →
    w.isCancelled f.state = true → id ∈ w.wakes.drop (m.since k)
  since : ∀ k, m.since k ≤ w.wakes.length

namespace Told

variable {m m' : Memory} {w w' : World}

/-- A step that wakes nobody, and after which no registered future is on a cancelled state that was
not so before. -/
theorem of_quiet (h : Told m w) (hwakes : w'.wakes = w.wakes)
    (hold : ∀ k f id, w'.futures.get? k = some f → f.registered = some id →
      w'.isCancelled f.state = true →
      w.futures.get? k = some f ∧ w.isCancelled f.state = true ∧ m'.since k = m.since k)
    (hsince : ∀ k, m'.since k ≤ w.wakes.length) : Told m' w' := by
  refine ⟨fun k f id hf hid hc => ?_, fun k => hwakes ▸ hsince k⟩
  obtain ⟨hf', hc', heq⟩ := hold k f id hf hid hc
  rw [hwakes, heq]
  exact h.woken k f id hf' hid hc'

theorem spread (h : Told m w) (ht : Tally w) {parent : Nat → Option Nat} {S : Nat → Prop}
    (hs : Spread parent S w w') : Told m w' := by
  obtain ⟨more, hmore, hiff⟩ := hs.woken
  refine ⟨fun k f id hf hid hc => ?_, fun k => ?_⟩
  · rw [hs.futures] at hf
    rw [hmore, drop_append_of_le_length (h.since k)]
    rcases hs.node f.state with heq | ⟨n, hn, -⟩
    · rw [World.isCancelled, heq] at hc
      exact mem_append_left _ (h.woken k f id hf hid hc)
    · exact mem_append_right _ ((hiff id).mpr
        ⟨f.state, n, hn, ht.mem_waiters hn.before hn.open_ hf hid⟩)
  · rw [hmore, length_append]
    exact Nat.le_add_right_of_le (h.since k)

end Told

/-- What holds along every run. -/
structure Sound (m : Memory) (w : World) : Prop where
  tree : Tree m w
  tally : Tally w
  told : Told m w

namespace Sound

variable {m : Memory} {w : World} {c t : Nat}

theorem isAlive_of_hasToken (h : w.hasToken c = true) : w.isAlive c = true := by
  rw [hasToken] at h
  rw [isAlive]
  cases hc : w.nodes[c]? with
  | none => rw [hc] at h; exact h
  | some n =>
    rw [hc, any_some, decide_eq_true_iff] at h
    rw [any_some, decide_eq_true_iff, Node.strong]
    omega

theorem pos_of_hasToken {n : Node} (h : w.hasToken c = true) (hn : w.nodes[c]? = some n) :
    0 < n.tokens := by
  rw [hasToken, hn] at h
  exact decide_eq_true_iff.mp h

theorem lt_of_isAlive (h : w.isAlive c = true) : c < w.nodes.length := by
  obtain ⟨n, hn, -⟩ := isAlive_iff.mp h
  exact (List.getElem?_eq_some_iff.mp hn).1

section

variable (h : Sound m w)

include h

theorem cancel (ht : w.isAlive t = true) : Sound m (w.cancel t) := by
  have hs := (h.tree.spread_cancel ht).1
  exact ⟨h.tree.spread hs, h.tally.spread hs, h.told.spread h.tally hs⟩

theorem new : Sound m w.new := by
  refine ⟨h.tree.new, h.tally.new, h.told.of_quiet rfl (fun k f id hf _ hc => ?_) h.told.since⟩
  rw [Tree.isCancelled_new_of_lt (h.tally.there k f hf)] at hc
  exact ⟨hf, hc, rfl⟩

theorem told_update {g : Node → Node} (hcancelled : ∀ n, (g n).cancelled = n.cancelled) :
    Told m (w.update t g) := by
  refine h.told.of_quiet rfl (fun k f id hf _ hc => ?_) h.told.since
  rw [isCancelled_of_update rfl hcancelled] at hc
  exact ⟨hf, hc, rfl⟩

theorem clone (hc : w.hasToken c = true) : Sound m (w.clone c) := by
  refine ⟨h.tree.update rfl (fun _ => rfl) (fun n hn _ => ⟨?_, rfl⟩) (fun _ _ => id),
    h.tally.update_node (fun _ => rfl) (fun _ => rfl) (fun _ _ _ => rfl),
    h.told_update fun _ => rfl⟩
  exact Nat.add_pos_left (pos_of_hasToken hc hn) _

theorem drop (c : Nat) : Sound m (w.drop c) := by
  refine ⟨h.tree.update rfl (fun n => Node.cancelled_freed _) (fun n _ hpos => ?_)
      (fun n _ => Node.mem_children_freed),
    h.tally.update_node (fun n => Node.futures_freed _) (fun n => Node.cancelled_freed _)
      (fun n hle id => Tally.count_freed (hle id)),
    h.told_update fun n => Node.cancelled_freed _⟩
  rw [Node.strong_freed] at hpos
  rw [Node.freed_of_strong hpos]
  refine ⟨?_, rfl⟩
  rw [Node.strong] at hpos ⊢
  dsimp only at hpos
  omega

theorem cancelledFuture {k : Nat} (hc : w.hasToken c = true) (hk : w.futures.get? k = none) :
    Sound m (w.cancelledFuture c k) := by
  refine ⟨h.tree.update rfl (fun _ => rfl) (fun n hn _ => ⟨?_, rfl⟩) (fun _ _ => id),
    h.tally.cancelledFuture (lt_of_isAlive (isAlive_of_hasToken hc)) hk,
    h.told.of_quiet rfl (fun j f id hf hid hcancelled => ?_) h.told.since⟩
  · exact Nat.add_pos_left (pos_of_hasToken hc hn) _
  · rw [World.cancelledFuture, Table.get?_insert] at hf
    split at hf
    · rw [← some.inj hf] at hid
      cases hid
    · refine ⟨hf, Eq.trans (Eq.symm ?_) hcancelled, rfl⟩
      apply isCancelled_of_update rfl
      exact fun _ => rfl

theorem dropCancelled (k : Nat) : Sound m (w.dropCancelled k) := by
  refine ⟨?_, h.tally.dropCancelled k, ?_⟩
  · rw [World.dropCancelled]
    cases hk : w.futures.get? k with
    | none => exact h.tree
    | some f =>
      refine h.tree.update rfl (fun n => Node.cancelled_freed _) (fun n hn hpos => ?_)
        fun n _ => Node.mem_children_freed
      rw [Node.strong_freed] at hpos
      rw [Node.freed_of_strong hpos]
      refine ⟨?_, rfl⟩
      rw [Node.strong] at hpos ⊢
      dsimp only at hpos
      omega
  · rw [World.dropCancelled]
    cases hk : w.futures.get? k with
    | none => exact h.told
    | some f =>
      refine h.told.of_quiet rfl (fun j g id hg _ hcancelled => ?_) h.told.since
      refine ⟨(Table.get?_erase_eq_some hg).2, Eq.trans (Eq.symm ?_) hcancelled, rfl⟩
      apply isCancelled_of_update rfl
      exact fun n => Node.cancelled_freed _

theorem poll (k task : Nat) : Sound (m.record w (.poll k task)) (w.pollCancelled k task).1 := by
  have htally := h.tally.pollCancelled k task
  have hsince : ∀ j, Function.update m.since k w.wakes.length j ≤ w.wakes.length := by
    intro j
    rcases eq_or_ne j k with rfl | hne
    · rw [update_self]
    · rw [update_of_ne hne]
      exact h.told.since j
  rw [Memory.record, World.pollCancelled] at *
  cases hk : w.futures.get? k with
  | none => exact h
  | some f =>
    obtain ⟨c, registered⟩ := f
    rw [hk] at htally
    dsimp only at htally ⊢
    cases registered with
    | some id =>
      dsimp only
      split
      · exact h
      · exact h
    | none =>
      dsimp only
      -- the observer notes the time of a registration, and nothing depends on it otherwise
      have hother : ∀ j f id, w.futures.get? j = some f → f.registered = some id →
          Function.update m.since k w.wakes.length j = m.since j := by
        rintro j f id hf hid
        refine update_of_ne ?_ _ _
        rintro rfl
        rw [← some.inj (hk.symm.trans hf)] at hid
        cases hid
      by_cases hcancelled : w.isCancelled c = true
      · rw [if_pos hcancelled]
        refine ⟨⟨h.tree.knows, h.tree.inherited⟩, h.tally,
          h.told.of_quiet rfl (fun j f id hf hid hc => ?_) hsince⟩
        exact ⟨hf, hc, hother j f id hf hid⟩
      · rw [if_neg hcancelled, if_pos rfl] at htally ⊢
        have htree : Tree m ({ w.update c fun n => { n with waiters := n.waiters ++ [task] } with
            futures := w.futures.insert k ⟨c, some task⟩ }) :=
          h.tree.update rfl (fun _ => rfl) (fun n hn hpos => ⟨hpos, rfl⟩) fun _ _ => id
        refine ⟨⟨htree.knows, htree.inherited⟩, htally,
          h.told.of_quiet rfl (fun j f id hf hid hc => ?_) hsince⟩
        rw [Table.get?_insert] at hf
        have hc' : w.isCancelled f.state = true := by
          refine Eq.trans (Eq.symm ?_) hc
          apply isCancelled_of_update rfl
          exact fun _ => rfl
        split at hf
        · rw [← some.inj hf] at hc'
          exact absurd hc' hcancelled
        · exact ⟨hf, hc', hother j f id hf hid⟩

theorem childToken (hc : w.hasToken c = true) :
    Sound { m with parent := Function.update m.parent w.nodes.length (some c) }
      (w.childToken c) := by
  have hlt : c < w.nodes.length := lt_of_isAlive (isAlive_of_hasToken hc)
  rw [World.childToken]
  by_cases hcancelled : w.isCancelled c = true
  · rw [if_pos hcancelled]
    have halive : w.new.isAlive w.nodes.length = true := by
      refine isAlive_iff.mpr ⟨.fresh, ?_, Nat.one_pos⟩
      rw [World.new, getElem?_append_right (Nat.le_refl _), Nat.sub_self,
        getElem?_cons_zero]
    have hs := h.new.tree.spread_cancel halive
    have hnew := h.new.cancel halive
    refine ⟨hnew.tree.adopt_cancelled (h.tree.parent_eq_none (Nat.le_refl _)) hlt ?_ ?_ hs.2,
      hnew.tally, ⟨hnew.told.woken, hnew.told.since⟩⟩
    · rw [hs.1.length_eq, Tree.length_new]
      exact Nat.lt_succ_self _
    · refine hs.1.isCancelled ?_
      rw [Tree.isCancelled_new_of_lt hlt]
      exact hcancelled
  · rw [if_neg hcancelled]
    obtain ⟨n, hn, -⟩ := isAlive_iff.mp (isAlive_of_hasToken hc)
    have hopen : n.cancelled = false := by
      rw [isCancelled, hn] at hcancelled
      exact Bool.eq_false_iff.mpr hcancelled
    have htold := h.new.told_update (t := c)
      (g := fun n => { n with children := n.children.filter w.isAlive ++ [w.nodes.length] })
      fun _ => rfl
    exact ⟨h.tree.adopt_open hn hopen,
      h.tally.new.update_node (fun _ => rfl) (fun _ => rfl) (fun _ _ _ => rfl),
      ⟨htold.woken, htold.since⟩⟩

theorem step (e : Event) : Sound (m.record w e) (w.step e) := by
  cases e with
  | new => exact h.new
  | childToken c =>
    rw [Memory.record, World.step]
    split
    · exact h.childToken ‹_›
    · exact h
  | clone c =>
    rw [Memory.record, World.step]
    split
    · exact h.clone ‹_›
    · exact h
    all_goals simp
  | drop c =>
    rw [Memory.record, World.step]
    split
    · exact h.drop c
    · exact h
    all_goals simp
  | cancel c =>
    rw [Memory.record, World.step]
    split
    · exact h.cancel (isAlive_of_hasToken ‹_›)
    · exact h
    all_goals simp
  | cancelled c k =>
    rw [Memory.record, World.step]
    split
    · rename_i hc
      exact h.cancelledFuture hc.1 hc.2
    · exact h
    all_goals simp
  | poll k task => exact h.poll k task
  | dropFuture k => exact h.dropCancelled k

end

end Sound

/-! ## Cancellation in a run -/

variable (events : List Event)

/-- The run of a program on its tokens, from nothing. -/
def watch : Memory × World :=
  Machine.run (Machine.withHistory step Memory.record) (.start, .empty) events

theorem watch_sound : Sound (watch events).1 (watch events).2 := by
  have hstart : Sound Memory.start empty :=
    { tree := ⟨⟨nofun, nofun, nofun⟩, nofun⟩
      tally := ⟨nofun, nofun, nofun⟩
      told := ⟨nofun, fun _ => Nat.le_refl _⟩ }
  rw [watch]
  exact Machine.run_invariant (P := fun p : Memory × World => Sound p.1 p.2) hstart
    fun x _ h => h.step x.2

/-- What is linked to a token is cancelled with it: the flag goes from parents to children. -/
theorem Tree.isCancelled_of_linked {m : Memory} {w : World} (h : Tree m w) {t c : Nat}
    (ht : w.isAlive t = true) (hlinked : m.Linked w t c) : (w.cancel t).isCancelled c = true := by
  obtain ⟨hs, hself⟩ := h.spread_cancel ht
  induction hlinked with
  | refl => exact hself
  | tail _ hc ih =>
    refine (h.spread hs).inherited _ _ hc.1 ih ?_
    rw [hs.isAlive]
    exact hc.2

/-- **How far a cancellation goes.**  In every run, a token that was derived from the one that is
cancelled is cancelled as well, and the tasks that are registered for it have been woken, if and
only if it was cancelled before or all the states between are still there.  Nothing happens to the
other tokens, and their tasks are not woken. -/
theorem cancel_reaches_iff {m : Memory} {w : World} (hrun : watch events = (m, w)) {t : Nat}
    (ht : w.hasToken t = true) : (∀ c, m.Derived t c → w.isAlive c = true →
      (((w.cancel t).isCancelled c = true ∧
          ∀ k f id, w.futures.get? k = some f → f.state = c → f.registered = some id →
            id ∈ (w.cancel t).wakes.drop (m.since k)) ↔
        w.isCancelled c = true ∨ m.Linked w t c)) ∧
      (∀ c, ¬m.Derived t c → (w.cancel t).nodes[c]? = w.nodes[c]?) ∧
      ∃ more, (w.cancel t).wakes = w.wakes ++ more ∧
        ∀ id ∈ more, ∃ c n, m.Derived t c ∧ w.nodes[c]? = some n ∧ id ∈ n.waiters := by
  have hsound : Sound m w := by
    have := watch_sound events
    rw [hrun] at this
    exact this
  have halive := Sound.isAlive_of_hasToken ht
  have hs := (hsound.tree.spread_cancel halive).1
  refine ⟨fun c _ _ => ⟨fun hc => ?_, fun hc => ?_⟩, fun c hc => ?_, ?_⟩
  · rcases hs.node c with heq | ⟨n, -, hlinked⟩
    · rw [isCancelled, heq] at hc
      exact .inl hc.1
    · exact .inr hlinked
  · have hcancelled : (w.cancel t).isCancelled c = true :=
      hc.elim hs.isCancelled (hsound.tree.isCancelled_of_linked halive)
    refine ⟨hcancelled, fun k f id hf hstate hid => ?_⟩
    subst hstate
    exact (hsound.cancel halive).told.woken k f id (hs.futures ▸ hf) hid hcancelled
  · rcases hs.node c with heq | ⟨n, -, hlinked⟩
    · exact heq
    · exact absurd hlinked.derived hc
  · obtain ⟨more, hmore, hiff⟩ := hs.woken
    refine ⟨more, hmore, fun id hid => ?_⟩
    obtain ⟨c, n, hn, hmem⟩ := (hiff id).mp hid
    refine ⟨c, n, ?_, hn.before, hmem⟩
    rcases hs.node c with heq | ⟨_, -, hlinked⟩
    · exact absurd (heq.symm.trans hn.after) hn.not_marked
    · exact hlinked.derived

/-- A token, its child, the child's child, and a task that waits for that one. -/
def lineage : List Event := [.new, .childToken 0, .childToken 1, .cancelled 2 0, .poll 0 7]

theorem cancel_reaches_iff_lineage :
    ((watch lineage).2.cancel 0).isCancelled 2 = true ∧
      7 ∈ ((watch lineage).2.cancel 0).wakes.drop ((watch lineage).1.since 0) := by
  have hlinked : (watch lineage).1.Linked (watch lineage).2 0 2 :=
    .tail (.single ⟨rfl, rfl⟩) ⟨rfl, rfl⟩
  have h := ((cancel_reaches_iff lineage (m := (watch lineage).1) (w := (watch lineage).2) rfl
    (t := 0) rfl).1 2 hlinked.derived rfl).mpr (.inr hlinked)
  exact ⟨h.1, h.2 0 ⟨2, some 7⟩ 7 rfl rfl rfl⟩

/-- The token between two others is dropped: the last one is there and was derived from the first,
and is not cancelled with it. -/
theorem orphan_not_cancelled :
    let (m, w) := watch (lineage ++ [.drop 1])
    m.Derived 0 2 ∧ w.hasToken 0 = true ∧ w.hasToken 2 = true ∧
      (w.cancel 0).isCancelled 2 = false ∧ (w.cancel 0).wakes = [] :=
  ⟨.tail (.single rfl) rfl, rfl, rfl, rfl, rfl⟩

end World

end Ringline.Runtime.Cancellation
