import Mathlib.Data.List.Chain
import Mathlib.Data.List.Nodup

/-!
# Circular lists with tagged ends

Doubly linked lists without a list object: the elements are in two directions on a ring, and the
two links that lead from one end to the other have a tag. A heap gives the node at an address, or
nothing where there is no node, so that an operation that follows a wild pointer comes to `none`.

* `RingHeap.first`, `RingHeap.last`, `RingHeap.elements`, `RingHeap.append` — the operations
* `IsRing h l` — the nodes at `l`, in this order, are a list
* `IsRing.append` — appending a single node
* `IsRing.of_agree`, `RingHeap.agree_of_append` — what an operation leaves alone

Nothing here is about a particular program.
-/

namespace DdsApps.Infra

/-- A pointer, and the tag in its lowest bit. -/
structure TaggedPtr (α : Type*) where
  untag : α
  isTagged : Bool
deriving DecidableEq, Repr

structure RingNode (α β : Type*) where
  next_ : TaggedPtr α
  prev_ : TaggedPtr α
  value : β
deriving DecidableEq, Repr

/-- The nodes at the addresses that have one. -/
structure RingHeap (α β : Type*) where
  node : α → Option (RingNode α β)

namespace RingHeap

variable {α β : Type*}

/-! ## Operations -/

def nextOf (h : RingHeap α β) (p : α) : Option (TaggedPtr α) := (h.node p).map RingNode.next_

def prevOf (h : RingHeap α β) (p : α) : Option (TaggedPtr α) := (h.node p).map RingNode.prev_

def valueOf (h : RingHeap α β) (p : α) : Option β := (h.node p).map RingNode.value

/-- Follows `prev_` up to the element with the tag; `fuel` bounds the number of nodes visited. -/
def first (h : RingHeap α β) : (fuel : Nat) → α → Option α
  | 0, _ => none
  | fuel + 1, p =>
    (h.prevOf p).bind fun prev_ => if prev_.isTagged then some p else first h fuel prev_.untag

/-- `first()->prevwrap()` -/
def last (h : RingHeap α β) (fuel : Nat) (p : α) : Option α :=
  (h.first fuel p).bind fun f => (h.prevOf f).map TaggedPtr.untag

/-- The elements from `p` on, as `next()` gives them. -/
def elements (h : RingHeap α β) : (fuel : Nat) → α → Option (List α)
  | 0, _ => none
  | fuel + 1, p =>
    (h.nextOf p).bind fun next_ =>
      if next_.isTagged then some [p] else (elements h fuel next_.untag).map (p :: ·)

theorem isSome_of_nextOf {h : RingHeap α β} {p : α} {t : TaggedPtr α} (hp : h.nextOf p = some t) :
    (h.node p).isSome := by
  obtain ⟨n, hn, -⟩ := Option.map_eq_some_iff.mp hp
  rw [hn, Option.isSome_some]

theorem isSome_of_prevOf {h : RingHeap α β} {p : α} {t : TaggedPtr α} (hp : h.prevOf p = some t) :
    (h.node p).isSome := by
  obtain ⟨n, hn, -⟩ := Option.map_eq_some_iff.mp hp
  rw [hn, Option.isSome_some]

variable [DecidableEq α]

def set (h : RingHeap α β) (p : α) (n : RingNode α β) : RingHeap α β :=
  ⟨fun q => if q = p then some n else h.node q⟩

/-- Writes the node at an address that has one. -/
def modify (h : RingHeap α β) (p : α) (g : RingNode α β → RingNode α β) :
    Option (RingHeap α β) :=
  (h.node p).map fun n => h.set p (g n)

/-- A node with itself as its list. -/
def single (p : α) (value : β) : RingNode α β :=
  { next_ := ⟨p, true⟩, prev_ := ⟨p, true⟩, value }

/-- The constructor, and the assignment, which makes a list of its own of its target. -/
def assign (h : RingHeap α β) (p : α) (value : β) : Option (RingHeap α β) :=
  h.modify p fun _ => single p value

/-- Puts `new_last` at the end of the list of `p`. -/
def append (h : RingHeap α β) (fuel : Nat) (p new_last : α) : Option (RingHeap α β) :=
  (h.last fuel p).bind fun e => (h.first fuel p).bind fun f => do
    let h ← h.modify e fun n => { n with next_ := ⟨new_last, false⟩ }
    let h ← h.modify new_last fun n => { n with prev_ := ⟨e, false⟩ }
    let h ← h.modify new_last fun n => { n with next_ := ⟨f, true⟩ }
    h.modify f fun n => { n with prev_ := ⟨new_last, true⟩ }

/-! ## What a write changes -/

variable {h k : RingHeap α β} {p q : α} {g : RingNode α β → RingNode α β}

theorem exists_modify (hp : (h.node p).isSome) (g : RingNode α β → RingNode α β) :
    ∃ k, h.modify p g = some k ∧
      ∀ q, k.node q = if q = p then (h.node q).map g else h.node q := by
  obtain ⟨n, hn⟩ := Option.isSome_iff_exists.mp hp
  refine ⟨h.set p (g n), by rw [modify, hn, Option.map_some], ?_⟩
  intro q
  by_cases hq : q = p
  · simp [set, hq, hn]
  · simp [set, hq]

theorem exists_assign (hp : (h.node p).isSome) (value : β) :
    ∃ k, h.assign p value = some k ∧
      ∀ q, k.node q = if q = p then some (single p value) else h.node q := by
  obtain ⟨k, hk, hnode⟩ := exists_modify hp fun _ => single p value
  refine ⟨k, hk, ?_⟩
  intro q
  rw [hnode]
  by_cases hq : q = p
  · obtain ⟨n, hn⟩ := Option.isSome_iff_exists.mp hp
    simp [hq, hn]
  · simp [hq]

/-- What appending `b` to the list from `f` to `e` writes. -/
structure Appended (h k : RingHeap α β) (f e b : α) : Prop where
  new : k.node b = (h.node b).map fun n =>
    { n with next_ := ⟨f, true⟩, prev_ := ⟨e, false⟩ }
  old : ∀ q, q ≠ b → k.node q = (h.node q).map fun n =>
    { n with
      next_ := if q = e then ⟨b, false⟩ else n.next_
      prev_ := if q = f then ⟨b, true⟩ else n.prev_ }

theorem append_of_ends {fuel : Nat} {f e b : α} (hf : h.first fuel p = some f)
    (he : h.last fuel p = some e) (hbf : b ≠ f) (hbe : b ≠ e) (hsf : (h.node f).isSome)
    (hse : (h.node e).isSome) (hsb : (h.node b).isSome) :
    ∃ k, h.append fuel p b = some k ∧ Appended h k f e b := by
  obtain ⟨h₁, hmod₁, hnode₁⟩ := exists_modify hse fun n => { n with next_ := ⟨b, false⟩ }
  have hsb₁ : (h₁.node b).isSome := by simpa [hnode₁, hbe] using hsb
  obtain ⟨h₂, hmod₂, hnode₂⟩ := exists_modify hsb₁ fun n => { n with prev_ := ⟨e, false⟩ }
  have hsb₂ : (h₂.node b).isSome := by simpa [hnode₂] using hsb₁
  obtain ⟨h₃, hmod₃, hnode₃⟩ := exists_modify hsb₂ fun n => { n with next_ := ⟨f, true⟩ }
  have hsf₃ : (h₃.node f).isSome := by
    rw [hnode₃, if_neg hbf.symm, hnode₂, if_neg hbf.symm, hnode₁]
    split
    · rwa [Option.isSome_map]
    · exact hsf
  obtain ⟨k, hmod, hnode⟩ := exists_modify hsf₃ fun n => { n with prev_ := ⟨b, true⟩ }
  refine ⟨k, ?_, ?_, ?_⟩
  · rw [append, he, hf]
    simp only [Option.bind_some, hmod₁, hmod₂, hmod₃, hmod, Option.bind_eq_bind]
  · rw [hnode, if_neg hbf, hnode₃, if_pos rfl, hnode₂, if_pos rfl, hnode₁, if_neg hbe,
      Option.map_map]
    rfl
  · intro q hq
    rw [hnode, hnode₃, if_neg hq, hnode₂, if_neg hq, hnode₁]
    -- the last and the first may be the same node
    cases h.node q <;> split_ifs <;> simp

namespace Appended

variable {f e b : α} (ha : Appended h k f e b)
include ha

theorem valueOf (q : α) : k.valueOf q = h.valueOf q := by
  by_cases hq : q = b
  · rw [hq, RingHeap.valueOf, RingHeap.valueOf, ha.new, Option.map_map]
    rfl
  · rw [RingHeap.valueOf, RingHeap.valueOf, ha.old q hq, Option.map_map]
    rfl

theorem nextOf_new (hb : (h.node b).isSome) : k.nextOf b = some ⟨f, true⟩ := by
  obtain ⟨n, hn⟩ := Option.isSome_iff_exists.mp hb
  rw [nextOf, ha.new, hn]
  rfl

theorem prevOf_new (hb : (h.node b).isSome) : k.prevOf b = some ⟨e, false⟩ := by
  obtain ⟨n, hn⟩ := Option.isSome_iff_exists.mp hb
  rw [prevOf, ha.new, hn]
  rfl

theorem nextOf_old {q : α} (hq : q ≠ b) :
    k.nextOf q = if q = e then (h.nextOf q).map fun _ => ⟨b, false⟩ else h.nextOf q := by
  rw [nextOf, nextOf, ha.old q hq, Option.map_map, Option.map_map]
  split_ifs <;> rfl

theorem prevOf_old {q : α} (hq : q ≠ b) :
    k.prevOf q = if q = f then (h.prevOf q).map fun _ => ⟨b, true⟩ else h.prevOf q := by
  rw [prevOf, prevOf, ha.old q hq, Option.map_map, Option.map_map]
  split_ifs <;> rfl

theorem node_eq {q : α} (hqb : q ≠ b) (hqe : q ≠ e) (hqf : q ≠ f) : k.node q = h.node q := by
  simp [ha.old q hqb, hqe, hqf]

end Appended

end RingHeap

/-! ## Lists -/

section IsRing

variable {α β : Type*}

/-- Consecutive elements point at each other, without a tag. -/
def RingHeap.Linked (h : RingHeap α β) (a b : α) : Prop :=
  h.nextOf a = some ⟨b, false⟩ ∧ h.prevOf b = some ⟨a, false⟩

/-- The nodes at `l` are the elements of a list, in this order. -/
structure IsRing (h : RingHeap α β) (l : List α) : Prop where
  nodup : l.Nodup
  linked : l.IsChain h.Linked
  /-- the ends point at each other, with the tag -/
  ends : ∀ f ∈ l.head?, ∀ e ∈ l.getLast?,
    h.nextOf e = some ⟨f, true⟩ ∧ h.prevOf f = some ⟨e, true⟩

variable {h k : RingHeap α β} {l : List α} {f e x y : α} {fuel : Nat}

theorem isRing_single {value : β} (hx : h.node x = some (RingHeap.single x value)) : IsRing h [x] where
  nodup := List.nodup_singleton x
  linked := List.isChain_singleton x
  ends := by
    rintro _ ⟨⟩ _ ⟨⟩
    simp [RingHeap.nextOf, RingHeap.prevOf, hx, RingHeap.single]

/-- A list is where its links are. -/
theorem IsRing.of_agree (hr : IsRing h l) (hagree : ∀ a ∈ l, k.node a = h.node a) : IsRing k l where
  nodup := hr.nodup
  linked := by
    refine hr.linked.imp_of_mem_imp ?_
    intro a b ha hb hab
    rw [RingHeap.Linked, RingHeap.nextOf, RingHeap.prevOf, hagree a ha, hagree b hb]
    exact hab
  ends := by
    intro f hf e he
    rw [RingHeap.nextOf, RingHeap.prevOf, hagree e (List.mem_of_getLast? he),
      hagree f (List.mem_of_head? hf)]
    exact hr.ends f hf e he

/-! ## Walks -/

theorem exists_ends (hl : l ≠ []) : ∃ f e, l.head? = some f ∧ l.getLast? = some e :=
  ⟨l.head hl, l.getLast hl, List.head?_eq_some_head hl, List.getLast?_eq_some_getLast hl⟩

theorem IsRing.first {d r : List α} (hr : IsRing h (d ++ x :: r)) (hfuel : d.length < fuel) :
    h.first fuel x = (d ++ x :: r).head? := by
  induction d using List.reverseRecOn generalizing x r fuel with
  | nil =>
    obtain ⟨_, e, -, he⟩ := exists_ends (List.cons_ne_nil x r)
    obtain ⟨fuel, rfl⟩ := Nat.exists_eq_add_of_lt hfuel
    have hends := hr.ends x rfl e he
    rw [List.length_nil, Nat.zero_add, RingHeap.first, hends.2, Option.bind_some, if_pos rfl]
    rfl
  | append_singleton d y ih =>
    rw [List.length_append, List.length_singleton] at hfuel
    obtain ⟨fuel, rfl⟩ := Nat.exists_eq_add_of_lt (Nat.zero_lt_of_lt hfuel)
    have hshape : d ++ [y] ++ x :: r = d ++ y :: x :: r := by
      rw [List.append_assoc, List.singleton_append]
    rw [hshape] at hr ⊢
    have hlinked : h.Linked y x := (List.isChain_append.mp hr.linked).2.1.rel
    rw [Nat.zero_add, RingHeap.first, hlinked.2, Option.bind_some, if_neg Bool.false_ne_true]
    exact ih hr (by omega)

theorem IsRing.last {d r : List α} (hr : IsRing h (d ++ x :: r)) (hfuel : d.length < fuel) :
    h.last fuel x = (d ++ x :: r).getLast? := by
  obtain ⟨f, e, hf, he⟩ := exists_ends (List.append_ne_nil_of_right_ne_nil d (List.cons_ne_nil x r))
  rw [RingHeap.last, hr.first hfuel, hf, he, Option.bind_some, (hr.ends f hf e he).2,
    Option.map_some]

/-- From an element on, `next()` gives the rest of the list. -/
theorem IsRing.elements {d r : List α} (hr : IsRing h (d ++ x :: r)) (hfuel : r.length < fuel) :
    h.elements fuel x = some (x :: r) := by
  induction r generalizing d x fuel with
  | nil =>
    obtain ⟨fuel, rfl⟩ := Nat.exists_eq_add_of_lt hfuel
    obtain ⟨f, _, hf, -⟩ := exists_ends (List.concat_ne_nil x d)
    have hends := hr.ends f hf x List.getLast?_concat
    rw [List.length_nil, Nat.zero_add, RingHeap.elements, hends.1, Option.bind_some, if_pos rfl]
  | cons y r ih =>
    rw [List.length_cons] at hfuel
    obtain ⟨fuel, rfl⟩ := Nat.exists_eq_add_of_lt (Nat.zero_lt_of_lt hfuel)
    have hlinked : h.Linked x y := (List.isChain_append.mp hr.linked).2.1.rel
    have hrest : h.elements fuel y = some (y :: r) := by
      refine ih (d := d ++ [x]) ?_ (by omega)
      rwa [List.append_assoc, List.singleton_append]
    rw [Nat.zero_add, RingHeap.elements, hlinked.1, Option.bind_some, if_neg Bool.false_ne_true,
      hrest, Option.map_some]

/-! ## Appending -/

/-- **The new element is the last one**; nothing else changes, and no value does. -/
theorem IsRing.append [DecidableEq α] {b : α} (hr : IsRing h l) (hx : x ∈ l) (hb : b ∉ l)
    (hsome : (h.node b).isSome) (hfuel : l.length ≤ fuel) :
    ∃ k, h.append fuel x b = some k ∧ IsRing k (l ++ [b]) ∧
      (∀ q, q ∉ l → q ≠ b → k.node q = h.node q) ∧ ∀ q, k.valueOf q = h.valueOf q := by
  obtain ⟨f, e, hf, he⟩ := exists_ends (List.ne_nil_of_mem hx)
  have hfl : f ∈ l := List.mem_of_head? hf
  have hel : e ∈ l := List.mem_of_getLast? he
  have hbf : b ≠ f := fun heq => hb (heq ▸ hfl)
  have hbe : b ≠ e := fun heq => hb (heq ▸ hel)
  have hends := hr.ends f hf e he
  obtain ⟨d, r, rfl⟩ := List.append_of_mem hx
  rw [List.length_append, List.length_cons] at hfuel
  have hd : d.length < fuel := by omega
  have hfirst := (hr.first hd).trans hf
  have hlast := (hr.last hd).trans he
  obtain ⟨k, hk, happended⟩ := RingHeap.append_of_ends hfirst hlast hbf hbe
    (RingHeap.isSome_of_prevOf hends.2) (RingHeap.isSome_of_nextOf hends.1) hsome
  refine ⟨k, hk, ⟨?_, ?_, ?_⟩, ?_, happended.valueOf⟩
  · rw [← List.concat_eq_append]
    exact hr.nodup.concat hb
  · refine List.isChain_append.mpr ⟨?_, List.isChain_singleton b, ?_⟩
    · refine hr.linked.imp_of_mem_imp ?_
      rintro a c ha hc ⟨hac, hca⟩
      -- a link without a tag is not the one between the ends
      have hae : a ≠ e := by
        rintro rfl
        rw [hends.1] at hac
        cases hac
      have hcf : c ≠ f := by
        rintro rfl
        rw [hends.2] at hca
        cases hca
      refine ⟨?_, ?_⟩
      · rw [happended.nextOf_old fun hab => hb (hab ▸ ha), if_neg hae, hac]
      · rw [happended.prevOf_old fun hcb => hb (hcb ▸ hc), if_neg hcf, hca]
    · rintro e' he' _ ⟨⟩
      obtain rfl : e = e' := Option.some.inj (he.symm.trans he')
      refine ⟨?_, happended.prevOf_new hsome⟩
      rw [happended.nextOf_old hbe.symm, if_pos rfl, hends.1, Option.map_some]
  · intro f' hf' e' he'
    rw [List.getLast?_concat] at he'
    rw [List.head?_append_of_ne_nil _ (List.ne_nil_of_mem hx)] at hf'
    obtain rfl : b = e' := Option.some.inj he'
    obtain rfl : f = f' := Option.some.inj (hf.symm.trans hf')
    refine ⟨happended.nextOf_new hsome, ?_⟩
    rw [happended.prevOf_old hbf.symm, if_pos rfl, hends.2, Option.map_some]
  · intro q hq hqb
    exact happended.node_eq hqb (fun hqe => hq (hqe ▸ hel)) fun hqf => hq (hqf ▸ hfl)

end IsRing

end DdsApps.Infra
