import DdsApps.Entities.Lifecycle

/-!
# Entities are released in a legal order, and completely

Whatever calls fail, and however the lives of the objects interleave, a destructor never makes a
call that is refused, and the last one leaves the factory as the first `init` found it.

* `Obj.Ok` — the pointers of one object, at each point of its life
* `Inv` — the entities of the factory are those it began with and those of the objects
* `entities_released` — what holds in every reachable state
-/

namespace DdsApps.Entities

open DdsApps.Infra

variable {ι κ : Type}

/-! ## The orders of creation and deletion -/

/-- What an entity is created in or with is created before it. -/
theorem parents_created : ∀ l ∈ creations.tails, ∀ k ∈ l.head?, ∀ p ∈ k.parents, p ∉ l := by
  decide

/-- What an entity was created in or with is deleted after it. -/
theorem parents_deleted_later (role : Role) :
    ∀ l ∈ role.deletions.tails, ∀ k ∈ l, ∀ p ∈ k.parents, p ∈ l := by
  cases role <;> decide

/-- What is deleted next was not used to create any entity that is left. -/
theorem no_child_left (role : Role) :
    ∀ l ∈ role.deletions.tails, ∀ k ∈ l.head?, ∀ k' ∈ l, k ∉ k'.parents := by
  cases role <;> decide

theorem creations_nodup : ∀ l ∈ creations.tails, l.Nodup := by
  decide

theorem deletions_nodup (role : Role) : ∀ l ∈ role.deletions.tails, l.Nodup := by
  cases role <;> decide

theorem parents_self (k : Slot) : k ∉ k.parents := by
  cases k <;> decide

theorem mem_creations (k : Slot) : k ∈ creations := by
  cases k <;> decide

theorem mem_deletions (role : Role) (k : Slot) : k ∈ role.deletions := by
  cases role <;> cases k <;> decide

theorem receiver_mem_parents (k : Slot) : ∀ p ∈ k.receiver, p ∈ k.parents := by
  cases k <;> decide

/-! ## One object -/

/-- The pointers whose entities have not been deleted. -/
def Phase.live : Phase → List Slot
  | .destroying rest => rest
  | .destroyed => []
  | _ => creations

/-- The entities an object has created and not yet deleted. -/
def Obj.Owns (o : Obj κ) (k : Slot) (h : κ) : Prop := k ∈ o.phase.live ∧ o.ptr k = some h

/-- The calls still to come are the last ones of their list, and `init` sets the pointers of those
that are done. -/
def Phase.Fits (role : Role) (ptr : Slot → Option κ) : Phase → Prop
  | .constructed => ∀ k, ptr k = none
  | .initializing rest => rest ∈ creations.tails ∧ ∀ k, ptr k = none ↔ k ∈ rest
  | .destroying rest => rest ∈ role.deletions.tails
  | _ => True

structure Obj.Ok (role : Role) (o : Obj κ) : Prop where
  phase : o.phase.Fits role o.ptr
  /-- a pointer is set only once those of what it was created in or with are -/
  parents : ∀ k h, o.ptr k = some h → ∀ p ∈ k.parents, (o.ptr p).isSome

/-- The parents of what an object owns, it owns as well. -/
theorem Obj.Ok.owns_parent {role : Role} {o : Obj κ} (hok : o.Ok role) {k : Slot} {h : κ}
    (ho : o.Owns k h) {p : Slot} (hp : p ∈ k.parents) : ∃ h', o.Owns p h' := by
  obtain ⟨h', hh'⟩ := Option.isSome_iff_exists.mp (hok.parents k h ho.2 p hp)
  refine ⟨h', ?_, hh'⟩
  have hlive := ho.1
  have hphase := hok.phase
  cases hph : o.phase with
  | destroying rest =>
    rw [hph] at hlive hphase
    exact parents_deleted_later role rest hphase k hlive p hp
  | destroyed =>
    rw [hph] at hlive
    cases hlive
  | constructed => exact mem_creations p
  | initializing rest => exact mem_creations p
  | inited success => exact mem_creations p

/-- In `init` every entity created so far is owned, and the pointers to come are null. -/
theorem Obj.Ok.of_initializing {role : Role} {o : Obj κ} (hok : o.Ok role) {k : Slot}
    {rest : List Slot} (hph : o.phase = .initializing (k :: rest)) :
    o.ptr k = none ∧ rest ∈ creations.tails ∧ ∀ p ∈ k.parents, ∃ h, o.Owns p h := by
  have hphase := hok.phase
  rw [hph] at hphase
  obtain ⟨htail, hnull⟩ := hphase
  refine ⟨(hnull k).mpr (List.mem_cons_self ..), ?_, ?_⟩
  · rw [List.mem_tails] at htail ⊢
    exact (List.suffix_cons k rest).trans htail
  · intro p hp
    have hnot := parents_created _ htail k rfl p hp
    obtain ⟨h, hh⟩ := Option.ne_none_iff_exists'.mp (mt (hnull p).mp hnot)
    refine ⟨h, ?_, hh⟩
    rw [hph]
    exact mem_creations p

/-- The object after a successful `create_*`. -/
def Obj.created (o : Obj κ) (k : Slot) (rest : List Slot) (h : κ) : Obj κ :=
  { phase := .afterCreating rest, ptr := Function.update o.ptr k (some h) }

@[simp] theorem Obj.created_ptr_self (o : Obj κ) (k : Slot) (rest : List Slot) (h : κ) :
    (o.created k rest h).ptr k = some h := Function.update_self ..

theorem Obj.created_ptr_of_ne (o : Obj κ) {k l : Slot} (rest : List Slot) (h : κ) (hl : l ≠ k) :
    (o.created k rest h).ptr l = o.ptr l := Function.update_of_ne hl ..

theorem live_afterCreating (rest : List Slot) : (Phase.afterCreating rest).live = creations := by
  cases rest <;> rfl

/-- It owns one entity more. -/
theorem Obj.created_owns_iff {o : Obj κ} {k : Slot} {rest : List Slot} {h : κ}
    (hph : o.phase.live = creations) (hnull : o.ptr k = none) (l : Slot) (x : κ) :
    (o.created k rest h).Owns l x ↔ (l = k ∧ x = h) ∨ o.Owns l x := by
  have hlive : (o.created k rest h).phase.live = creations := live_afterCreating rest
  unfold Obj.Owns
  rw [hlive, hph]
  by_cases hl : l = k
  · subst hl
    simp only [created_ptr_self, hnull, mem_creations, Option.some.injEq, reduceCtorEq,
      and_false, or_false, true_and]
    exact eq_comm
  · rw [created_ptr_of_ne o rest h hl]
    simp only [hl, false_and, false_or]

/-- What was owned before is recorded as before. -/
theorem Obj.created_cell {role : Role} {o : Obj κ} {k : Slot} (rest : List Slot) (h : κ)
    {l : Slot} (hl : k ∉ l.parents) (x : κ) :
    (o.created k rest h).cell role l x = o.cell role l x := by
  unfold Obj.cell
  congr 1
  refine List.filterMap_congr fun p hp => ?_
  exact created_ptr_of_ne o rest h fun hpk => hl (hpk ▸ hp)

theorem Obj.Ok.created {role : Role} {o : Obj κ} (hok : o.Ok role) {k : Slot} {rest : List Slot}
    (hph : o.phase = .initializing (k :: rest)) (h : κ) : (o.created k rest h).Ok role := by
  obtain ⟨hnull, htail, hparents⟩ := hok.of_initializing hph
  have hphase := hok.phase
  rw [hph] at hphase
  constructor
  · cases rest with
    | nil => trivial
    | cons k' rest' =>
      refine ⟨htail, fun l => ?_⟩
      by_cases hl : l = k
      · subst hl
        have hnodup : (l :: k' :: rest').Nodup := creations_nodup _ hphase.1
        rw [created_ptr_self]
        exact iff_of_false (by simp) (List.nodup_cons.mp hnodup).1
      · rw [created_ptr_of_ne o _ h hl, hphase.2 l, List.mem_cons, or_iff_right hl]
  · intro l x hl p hp
    by_cases hpk : p = k
    · rw [hpk, created_ptr_self]
      rfl
    · rw [created_ptr_of_ne o rest h hpk]
      by_cases hlk : l = k
      · obtain ⟨h', ho⟩ := hparents p (hlk ▸ hp)
        rw [ho.2]
        rfl
      · rw [created_ptr_of_ne o rest h hlk] at hl
        exact hok.parents l x hl p hp

/-- After its call an entity is no longer among those still to be deleted. -/
theorem Obj.destroying_owns_iff {role : Role} {o : Obj κ} (hok : o.Ok role) {k : Slot}
    {rest : List Slot} (hph : o.phase = .destroying (k :: rest)) (l : Slot) (x : κ) :
    Obj.Owns { o with phase := .destroying rest } l x ↔ o.Owns l x ∧ l ≠ k := by
  have hphase := hok.phase
  rw [hph] at hphase
  have hnot : k ∉ rest := (List.nodup_cons.mp (deletions_nodup role _ hphase)).1
  unfold Obj.Owns
  rw [hph]
  simp only [Phase.live, List.mem_cons]
  constructor
  · rintro ⟨hl, hx⟩
    exact ⟨⟨Or.inr hl, hx⟩, fun hlk => hnot (hlk ▸ hl)⟩
  · rintro ⟨⟨hl, hx⟩, hne⟩
    exact ⟨hl.resolve_left hne, hx⟩

theorem Obj.Ok.destroying {role : Role} {o : Obj κ} (hok : o.Ok role) {k : Slot}
    {rest : List Slot} (hph : o.phase = .destroying (k :: rest)) :
    Obj.Ok role { o with phase := .destroying rest } := by
  have hphase := hok.phase
  rw [hph] at hphase
  refine ⟨?_, hok.parents⟩
  have htail := (List.mem_tails _ _).mp hphase
  exact (List.mem_tails _ _).mpr ((List.suffix_cons k rest).trans htail)

/-! ## The invariant -/

/-- What the factory holds, and who owns it. -/
structure Inv (roles : ι → Role) (base : RefStore κ Kind) (s : State ι κ) : Prop where
  extended : s.factory.Extends base
  /-- every entity is one of the first, or owned -/
  accounted : ∀ c ∈ s.factory.cells, c.key ∈ base.keys ∨ ∃ i k, (s.objs i).Owns k c.key
  /-- what is owned exists, as it was created -/
  exists_cell : ∀ i k h, (s.objs i).Owns k h →
    (s.objs i).cell (roles i) k h ∈ s.factory.cells
  /-- the first entities belong to nobody -/
  foreign : ∀ i k h, (s.objs i).Owns k h → h ∉ base.keys
  /-- nothing is owned twice -/
  unique : ∀ i k j l h, (s.objs i).Owns k h → (s.objs j).Owns l h → i = j ∧ k = l
  ok : ∀ i, (s.objs i).Ok (roles i)
  clean : s.failures = []

variable {roles : ι → Role} {base : RefStore κ Kind} {s t : State ι κ}

theorem Inv.initial (roles : ι → Role) (base : RefStore κ Kind) :
    Inv roles base (initial (ι := ι) base) where
  extended := RefStore.Extends.refl base
  accounted c hc := Or.inl (RefStore.key_mem_keys hc)
  exists_cell _ _ _ h := by cases h.2
  foreign _ _ _ h := by cases h.2
  unique _ _ _ _ _ h := by cases h.2
  ok _ := ⟨fun _ => rfl, fun _ _ h => by cases h⟩
  clean := rfl

/-- What an object owns can be used. -/
theorem Inv.usable (hs : Inv roles base s) {i : ι} {ks : List Slot}
    (h : ∀ p ∈ ks, ∃ h, (s.objs i).Owns p h) : s.Usable i ks := by
  intro p hp
  obtain ⟨h, ho⟩ := h p hp
  exact ⟨h, ho.2, RefStore.key_mem_keys (hs.exists_cell i p h ho)⟩

/-- Nothing that is left needs the entity that is deleted next. -/
theorem Inv.unreferenced (hs : Inv roles base s) {i : ι} {k : Slot} {rest : List Slot}
    (hph : (s.objs i).phase = .destroying (k :: rest)) {h : κ} (ho : (s.objs i).Owns k h) :
    s.factory.Unreferenced h := by
  intro c hc href
  rcases hs.accounted c hc with hbase | ⟨j, l, hj⟩
  · exact hs.foreign i k h ho (RefStore.mem_keys_of_refs hs.extended hc hbase href)
  · -- the cell is the one of `l`, so the reference is one of its parents
    have hcell := s.factory.eq_of_key_eq hc (hs.exists_cell j l c.key hj) rfl
    rw [hcell] at href
    obtain ⟨p, hp, hptr⟩ := List.mem_filterMap.mp href
    obtain ⟨h', hh'⟩ := (hs.ok j).owns_parent hj hp
    have hsame : h' = h := Option.some.inj (hh'.2.symm.trans hptr)
    obtain ⟨rfl, rfl⟩ := hs.unique i k j p h ho (hsame ▸ hh')
    have hphase := (hs.ok i).phase
    have hlive := hj.1
    rw [hph] at hphase hlive
    exact no_child_left (roles i) _ hphase k rfl l hlive hp

/-! ## One step -/

variable [DecidableEq ι]

/-- A step of an object that leaves its pointers and what it owns alone. -/
theorem Inv.set (hs : Inv roles base s) {i : ι} {o : Obj κ} (hptr : o.ptr = (s.objs i).ptr)
    (howns : ∀ k h, o.Owns k h ↔ (s.objs i).Owns k h) (hok : o.Ok (roles i)) :
    Inv roles base (s.set i o) := by
  have hown : ∀ j k h, ((s.set i o).objs j).Owns k h ↔ (s.objs j).Owns k h := by
    intro j k h
    exact State.forall_set (p := fun j o => o.Owns k h ↔ (s.objs j).Owns k h) (howns k h)
      (fun _ _ => Iff.rfl) j
  have hcell : ∀ j k h,
      ((s.set i o).objs j).cell (roles j) k h = (s.objs j).cell (roles j) k h := by
    intro j k h
    refine State.forall_set (p := fun j o => o.cell (roles j) k h = (s.objs j).cell (roles j) k h)
      ?_ (fun _ _ => rfl) j
    rw [Obj.cell, Obj.cell, hptr]
  refine ⟨hs.extended, ?_, ?_, ?_, ?_, ?_, hs.clean⟩
  · intro c hc
    refine (hs.accounted c hc).imp_right ?_
    rintro ⟨j, k, h⟩
    exact ⟨j, k, (hown j k _).mpr h⟩
  · intro j k h hj
    rw [hcell]
    exact hs.exists_cell j k h ((hown j k h).mp hj)
  · intro j k h hj
    exact hs.foreign j k h ((hown j k h).mp hj)
  · intro j k j' k' h hj hj'
    exact hs.unique j k j' k' h ((hown j k h).mp hj) ((hown j' k' h).mp hj')
  · exact State.forall_set hok fun j _ => hs.ok j

/-- **A `create_*` that succeeds adds one entity, and its owner.** -/
theorem Inv.create (hs : Inv roles base s) {i : ι} {k : Slot} {rest : List Slot}
    (hph : (s.objs i).phase = .initializing (k :: rest)) {h : κ} (hfresh : h ∉ s.factory.keys)
    (hrefs : ∀ r ∈ ((s.objs i).cell (roles i) k h).refs, r ∈ s.factory.keys) :
    Inv roles base
      ({ s with factory := s.factory.insert ((s.objs i).cell (roles i) k h) hfresh hrefs }.set i
        ((s.objs i).created k rest h)) := by
  obtain ⟨hnull, htail, hparents⟩ := (hs.ok i).of_initializing hph
  set s' := { s with factory := s.factory.insert ((s.objs i).cell (roles i) k h) hfresh hrefs }
    with hs'
  have hown : ∀ j l x, ((s'.set i ((s.objs i).created k rest h)).objs j).Owns l x ↔
      (j = i ∧ l = k ∧ x = h) ∨ (s.objs j).Owns l x := by
    intro j l x
    by_cases hj : j = i
    · subst hj
      rw [State.set_objs_self, Obj.created_owns_iff (by rw [hph]; rfl) hnull, eq_self, true_and]
    · rw [State.set_objs_of_ne _ _ hj]
      simp [hj, hs']
  -- a new handle is not one that anybody owns
  have hnew : ∀ j l, ¬(s.objs j).Owns l h := by
    intro j l ho
    exact hfresh (RefStore.key_mem_keys (hs.exists_cell j l h ho))
  have hcell : ∀ j l x, (s.objs j).Owns l x →
      ((s'.set i ((s.objs i).created k rest h)).objs j).cell (roles j) l x
        = (s.objs j).cell (roles j) l x := by
    intro j l x ho
    by_cases hj : j = i
    · subst hj
      rw [State.set_objs_self]
      -- what is owned already was not created in the new entity: that pointer was null
      refine Obj.created_cell rest h (fun hkl => ?_) x
      have hsome := (hs.ok j).parents l x ho.2 k hkl
      rw [hnull] at hsome
      cases hsome
    · rw [State.set_objs_of_ne _ _ hj]
  refine ⟨hs.extended.insert hfresh hrefs, ?_, ?_, ?_, ?_, ?_, hs.clean⟩
  · intro c hc
    rcases (RefStore.mem_insert hfresh hrefs).mp hc with hc | rfl
    · refine (hs.accounted c hc).imp_right ?_
      rintro ⟨j, l, ho⟩
      exact ⟨j, l, (hown j l _).mpr (Or.inr ho)⟩
    · exact Or.inr ⟨i, k, (hown i k _).mpr (Or.inl ⟨rfl, rfl, rfl⟩)⟩
  · intro j l x ho
    rcases (hown j l x).mp ho with ⟨rfl, rfl, rfl⟩ | ho
    · rw [State.set_objs_self, Obj.created_cell rest x (parents_self l)]
      exact (RefStore.mem_insert hfresh hrefs).mpr (Or.inr rfl)
    · rw [hcell j l x ho]
      exact (RefStore.mem_insert hfresh hrefs).mpr (Or.inl (hs.exists_cell j l x ho))
  · intro j l x ho hbase
    rcases (hown j l x).mp ho with ⟨rfl, rfl, rfl⟩ | ho
    · exact hfresh (hs.extended.subset_keys hbase)
    · exact hs.foreign j l x ho hbase
  · intro j l j' l' x ho ho'
    rcases (hown j l x).mp ho with ⟨hj, hl, hx⟩ | hold
    · rcases (hown j' l' x).mp ho' with ⟨hj', hl', -⟩ | hold'
      · exact ⟨hj.trans hj'.symm, hl.trans hl'.symm⟩
      · exact absurd (hx ▸ hold') (hnew j' l')
    · rcases (hown j' l' x).mp ho' with ⟨-, -, hx'⟩ | hold'
      · exact absurd (hx' ▸ hold) (hnew j l)
      · exact hs.unique j l j' l' x hold hold'
  · exact State.forall_set ((hs.ok i).created hph h) fun j _ => hs.ok j

variable [DecidableEq κ]

/-- **A `delete_*` that succeeds removes one entity, and its owner.** -/
theorem Inv.erase (hs : Inv roles base s) {i : ι} {k : Slot} {rest : List Slot}
    (hph : (s.objs i).phase = .destroying (k :: rest)) {h : κ} (ho : (s.objs i).Owns k h)
    (hun : s.factory.Unreferenced h) :
    Inv roles base
      ({ s with factory := s.factory.erase h hun }.set i
        { s.objs i with phase := .destroying rest }) := by
  set s' := { s with factory := s.factory.erase h hun } with hs'
  have hown : ∀ j l x, ((s'.set i { s.objs i with phase := .destroying rest }).objs j).Owns l x ↔
      (s.objs j).Owns l x ∧ ¬(j = i ∧ l = k) := by
    intro j l x
    by_cases hj : j = i
    · subst hj
      rw [State.set_objs_self, Obj.destroying_owns_iff (hs.ok j) hph, eq_self, true_and]
    · rw [State.set_objs_of_ne _ _ hj]
      simp [hj, hs']
  have hcell : ∀ j l x,
      ((s'.set i { s.objs i with phase := .destroying rest }).objs j).cell (roles j) l x
        = (s.objs j).cell (roles j) l x := by
    intro j l x
    by_cases hj : j = i
    · subst hj
      rw [State.set_objs_self]
      rfl
    · rw [State.set_objs_of_ne _ _ hj]
  refine ⟨hs.extended.erase (hs.foreign i k h ho) hun, ?_, ?_, ?_, ?_, ?_, hs.clean⟩
  · intro c hc
    obtain ⟨hc, hne⟩ := (RefStore.mem_erase hun).mp hc
    refine (hs.accounted c hc).imp_right ?_
    rintro ⟨j, l, hj⟩
    refine ⟨j, l, (hown j l _).mpr ⟨hj, ?_⟩⟩
    rintro ⟨rfl, rfl⟩
    exact hne (Option.some.inj (hj.2.symm.trans ho.2))
  · intro j l x hj
    obtain ⟨hj, hne⟩ := (hown j l x).mp hj
    rw [hcell]
    refine (RefStore.mem_erase hun).mpr ⟨hs.exists_cell j l x hj, fun hx => hne ?_⟩
    exact hs.unique j l i k h (hx ▸ hj) ho
  · intro j l x hj
    exact hs.foreign j l x ((hown j l x).mp hj).1
  · intro j l j' l' x hj hj'
    exact hs.unique j l j' l' x ((hown j l x).mp hj).1 ((hown j' l' x).mp hj').1
  · exact State.forall_set ((hs.ok i).destroying hph) fun j _ => hs.ok j

/-- The next call of a destructor is legal, and succeeds. -/
theorem Inv.delete (hs : Inv roles base s) {i : ι} {k : Slot} {rest : List Slot}
    (hph : (s.objs i).phase = .destroying (k :: rest)) :
    Inv roles base
      ((deleteCall s i k).set i { s.objs i with phase := .destroying rest }) := by
  have hok := (hs.ok i).destroying hph
  unfold deleteCall
  cases hptr : (s.objs i).ptr k with
  | none =>
    -- a null pointer owns nothing, so nothing changes hands
    refine hs.set rfl (fun l x => ?_) hok
    rw [Obj.destroying_owns_iff (hs.ok i) hph]
    refine and_iff_left_of_imp fun ho hlk => ?_
    rw [hlk, Obj.Owns, hptr] at ho
    cases ho.2
  | some h =>
    have ho : (s.objs i).Owns k h := by
      refine ⟨?_, hptr⟩
      rw [hph]
      exact List.mem_cons_self ..
    have husable : s.Usable i k.receiver :=
      hs.usable fun p hp => (hs.ok i).owns_parent ho (receiver_mem_parents k p hp)
    have hun := hs.unreferenced hph ho
    have hdelete : s.factory.delete h = some (s.factory.erase h hun) :=
      RefStore.delete_of_unreferenced (RefStore.key_mem_keys (hs.exists_cell i k h ho)) hun
    simp only [if_pos husable, hdelete]
    exact hs.erase hph ho hun

/-! ## Every run -/

theorem Inv.step (hs : Inv roles base s) {e : Event ι κ} (ht : step roles s e = some t) :
    Inv roles base t := by
  cases e with
  | init i =>
    simp only [Entities.step] at ht
    split at ht
    · next hph =>
      cases ht
      have hok := hs.ok i
      have hnull := hok.phase
      rw [hph] at hnull
      refine hs.set rfl (fun k h => ?_) ⟨⟨by decide, fun k => ?_⟩, hok.parents⟩
      · unfold Obj.Owns
        rw [hph]
        rfl
      · exact iff_of_true (hnull k) (mem_creations k)
    · cases ht
  | create i result =>
    simp only [Entities.step] at ht
    split at ht
    · next k rest hph =>
      cases result with
      | none =>
        cases ht
        refine hs.set rfl (fun k h => ?_) ⟨trivial, (hs.ok i).parents⟩
        unfold Obj.Owns
        rw [hph]
        rfl
      | some h =>
        simp only [createCall] at ht
        split at ht
        · cases ht
        · next hfresh =>
          obtain ⟨-, -, hparents⟩ := (hs.ok i).of_initializing hph
          have hrefs : ∀ r ∈ ((s.objs i).cell (roles i) k h).refs, r ∈ s.factory.keys := by
            intro r hr
            obtain ⟨p, hp, hptr⟩ := List.mem_filterMap.mp hr
            obtain ⟨h', ho⟩ := hparents p hp
            rw [← Option.some.inj (ho.2.symm.trans hptr)]
            exact RefStore.key_mem_keys (hs.exists_cell i p h' ho)
          have hcreate := RefStore.create_of_fresh hfresh hrefs
          simp only [if_pos (hs.usable hparents), hcreate, Option.some.injEq] at ht
          subst ht
          exact hs.create hph hfresh hrefs
    · cases ht
  | destroy i =>
    have hlive : ∀ l : List Slot, (∀ k, k ∈ l) → (s.objs i).phase.live = l →
        Inv roles base (s.set i { s.objs i with phase := .destroying (roles i).deletions }) := by
      intro l hl hph
      refine hs.set rfl (fun k h => ?_) ⟨(List.mem_tails _ _).mpr List.suffix_rfl,
        (hs.ok i).parents⟩
      unfold Obj.Owns
      rw [hph]
      exact and_congr_left' (iff_of_true (mem_deletions _ k) (hl k))
    simp only [Entities.step] at ht
    split at ht
    · next hph =>
      cases ht
      exact hlive creations mem_creations (by rw [hph]; rfl)
    · next hph =>
      cases ht
      exact hlive creations mem_creations (by rw [hph]; rfl)
    · cases ht
  | delete i =>
    simp only [Entities.step] at ht
    split at ht
    · next k rest hph =>
      cases ht
      exact hs.delete hph
    · next hph =>
      cases ht
      refine hs.set rfl (fun k h => ?_) ⟨trivial, (hs.ok i).parents⟩
      unfold Obj.Owns
      rw [hph]
      rfl
    · cases ht

theorem inv_of_reachable (hs : (machine roles base).Reachable s) : Inv roles base s :=
  Machine.invariant (Inv.initial roles base) (fun _ _ _ _ h ht => h.step ht) hs

/--
**Every call is legal, and nothing is left.**

In every state the objects can reach: no `create_*` or `delete_*` was made through a pointer to
nothing, and no `delete_*` of an entity was refused; and once all objects are destroyed the factory
is the one they started with.
-/
theorem entities_released (hs : (machine roles base).Reachable s) :
    s.failures = [] ∧ ((∀ i, (s.objs i).phase = .destroyed) → s.factory = base) := by
  have hinv := inv_of_reachable hs
  refine ⟨hinv.clean, fun hall => ?_⟩
  refine RefStore.eq_of_extends hinv.extended fun c hc => ?_
  rcases hinv.accounted c hc with hbase | ⟨i, k, hlive, -⟩
  · exact hbase
  · rw [hall i] at hlive
    cases hlive

/-- A publisher and a subscriber, as `both` runs them. -/
def bothMode : Bool → Role
  | true => .publisher
  | false => .subscriber

/-- A participant of somebody else. -/
def otherParticipant : RefStore Nat Kind where
  cells := [⟨0, .participant, []⟩]
  nodup := by decide
  closed := by decide

/-- The publisher gets no topic, and is destroyed while the subscriber's `init` goes on. -/
def topicFails : List (Event Bool Nat) :=
  [.init true, .init false, .create true (some 1), .create false (some 2), .create true (some 3),
    .create false (some 4), .create true none, .destroy true, .delete true, .delete true,
    .create false (some 3), .delete true, .delete true, .delete true, .create false (some 5),
    .destroy false, .delete false, .delete false, .delete false, .delete false, .delete false]

theorem topicFails_released :
    (((machine bothMode otherParticipant).exec topicFails).get (by decide)).factory
      = otherParticipant := by
  have hexec : (machine bothMode otherParticipant).exec topicFails
      = some (((machine bothMode otherParticipant).exec topicFails).get (by decide)) :=
    (Option.some_get _).symm
  exact (entities_released (Machine.reachable_of_exec hexec)).2 (by decide)

end DdsApps.Entities
