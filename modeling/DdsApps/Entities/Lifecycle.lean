import DdsApps.Infra.Machine
import DdsApps.Infra.RefStore
import Mathlib.Logic.Function.Basic

/-!
# Lifetimes of publishers and subscribers

Each object creates a participant, a publisher or subscriber in it, a topic in it, and a writer or
reader of both; its destructor deletes what it has created. All objects of a process work on one
`DomainParticipantFactory`, each in a thread of its own.

Fast DDS is not part of the repository. Its factory is a store of entities, each with the
entities it is contained in or uses: an entity is not deleted while another one needs it. A
`create_*` may fail at any time; then nothing changes.

The publishers (`HelloWorldPublisher`, `CyclicROSDataPublisher`, `ROSTypeDataPublisher`) delete in
one order, the subscribers (`HelloWorldSubscriber`, `ROSTypeDataSubscriber`) in another.
-/

namespace DdsApps.Entities

open DdsApps.Infra

/-! ## Objects -/

inductive Role
  | publisher
  | subscriber
deriving DecidableEq, Repr

inductive Kind
  | participant
  | publisher
  | subscriber
  | topic
  | dataWriter
  | dataReader
deriving DecidableEq, Repr

/-- The pointers of an object: `participant_`; `publisher_` or `subscriber_`; `topic_`; `writer_`
or `reader_`. -/
inductive Slot
  | participant
  | group
  | topic
  | endpoint
deriving DecidableEq, Repr

def Role.kind : Role → Slot → Kind
  | _, .participant => .participant
  | .publisher, .group => .publisher
  | .subscriber, .group => .subscriber
  | _, .topic => .topic
  | .publisher, .endpoint => .dataWriter
  | .subscriber, .endpoint => .dataReader

/-- The entities one is created in or with: the object `create_*` is called on, and its
arguments. -/
def Slot.parents : Slot → List Slot
  | .participant => []
  | .group => [.participant]
  | .topic => [.participant]
  | .endpoint => [.group, .topic]

/-- The entity `delete_*` is called on; a participant is deleted by the factory. -/
def Slot.receiver : Slot → List Slot
  | .participant => []
  | .group => [.participant]
  | .topic => [.participant]
  | .endpoint => [.group]

/-- The `create_*` calls of `init`, in both classes. -/
def creations : List Slot := [.participant, .group, .topic, .endpoint]

/-- The `delete_*` calls of the destructor. -/
def Role.deletions : Role → List Slot
  | .publisher => [.endpoint, .group, .topic, .participant]
  | .subscriber => [.endpoint, .topic, .group, .participant]

inductive Phase
  | constructed
  /-- in `init`, with these calls to come -/
  | initializing (rest : List Slot)
  /-- `init` has returned this -/
  | inited (success : Bool)
  /-- in the destructor, with these calls to come -/
  | destroying (rest : List Slot)
  | destroyed
deriving DecidableEq, Repr

variable {ι κ : Type}

structure Obj (κ : Type) where
  phase : Phase
  /-- the pointers; `none` is `nullptr` -/
  ptr : Slot → Option κ

/-! ## The process -/

structure State (ι κ : Type) where
  factory : RefStore κ Kind
  objs : ι → Obj κ
  /-- the calls that Fast DDS refused or that went through a pointer to nothing -/
  failures : List (ι × Slot)

inductive Event (ι κ : Type)
  /-- `init` is called -/
  | init (i : ι)
  /-- its next `create_*` returns this -/
  | create (i : ι) (result : Option κ)
  /-- the destructor is called -/
  | destroy (i : ι)
  /-- its next `delete_*`, or its end -/
  | delete (i : ι)

variable [DecidableEq ι] [DecidableEq κ]

def State.set (s : State ι κ) (i : ι) (o : Obj κ) : State ι κ :=
  { s with objs := Function.update s.objs i o }

/-- The pointers lead to entities that exist. -/
def State.Usable (s : State ι κ) (i : ι) (ks : List Slot) : Prop :=
  ∀ k ∈ ks, ∃ h ∈ (s.objs i).ptr k, h ∈ s.factory.keys

instance (s : State ι κ) (i : ι) (ks : List Slot) : Decidable (s.Usable i ks) :=
  inferInstanceAs (Decidable (∀ k ∈ ks, ∃ h ∈ (s.objs i).ptr k, h ∈ s.factory.keys))

/-- The entity behind a pointer, as Fast DDS keeps it. -/
def Obj.cell (role : Role) (o : Obj κ) (k : Slot) (h : κ) : Cell κ Kind :=
  ⟨h, role.kind k, k.parents.filterMap o.ptr⟩

/-- `init` returns `true` after its last call. -/
def Phase.afterCreating : List Slot → Phase
  | [] => .inited true
  | rest => .initializing rest

/-- One `create_*`: with a handle that is not in use, or with `nullptr`. -/
def createCall (role : Role) (s : State ι κ) (i : ι) (k : Slot) (rest : List Slot) :
    Option κ → Option (State ι κ)
  | none => some (s.set i { s.objs i with phase := .inited false })
  | some h =>
    if h ∈ s.factory.keys then none
    else if s.Usable i k.parents then
      match s.factory.create ((s.objs i).cell role k h) with
      | some factory =>
        some ({ s with factory := factory }.set i
          { phase := .afterCreating rest, ptr := Function.update (s.objs i).ptr k (some h) })
      | none => some { s with failures := (i, k) :: s.failures }
    else some { s with failures := (i, k) :: s.failures }

/--
One `delete_*` of the destructor.

It is made for the pointers that are not null; `delete_participant` is always called, and does
nothing for a null one. What it returns is not looked at.
-/
def deleteCall (s : State ι κ) (i : ι) (k : Slot) : State ι κ :=
  match (s.objs i).ptr k with
  | none => s
  | some h =>
    if s.Usable i k.receiver then
      match s.factory.delete h with
      | some factory => { s with factory := factory }
      | none => { s with failures := (i, k) :: s.failures }
    else { s with failures := (i, k) :: s.failures }

def step (roles : ι → Role) (s : State ι κ) : Event ι κ → Option (State ι κ)
  | .init i =>
    match (s.objs i).phase with
    | .constructed => some (s.set i { s.objs i with phase := .initializing creations })
    | _ => none
  | .create i result =>
    match (s.objs i).phase with
    | .initializing (k :: rest) => createCall (roles i) s i k rest result
    | _ => none
  | .destroy i =>
    match (s.objs i).phase with
    | .constructed | .inited _ =>
      some (s.set i { s.objs i with phase := .destroying (roles i).deletions })
    | _ => none
  | .delete i =>
    match (s.objs i).phase with
    | .destroying (k :: rest) =>
      some ((deleteCall s i k).set i { s.objs i with phase := .destroying rest })
    | .destroying [] => some (s.set i { s.objs i with phase := .destroyed })
    | _ => none

/-- All objects are constructed, and the factory holds what it holds. -/
def initial (factory : RefStore κ Kind) : State ι κ :=
  { factory := factory, objs := fun _ => ⟨.constructed, fun _ => none⟩, failures := [] }

def machine (roles : ι → Role) (factory : RefStore κ Kind) : Machine (State ι κ) (Event ι κ) :=
  ⟨initial factory, step roles⟩

/-! ## What a state looks like after a step -/

section Set

omit [DecidableEq κ]

@[simp] theorem State.set_objs_self (s : State ι κ) (i : ι) (o : Obj κ) :
    (s.set i o).objs i = o := Function.update_self ..

theorem State.set_objs_of_ne (s : State ι κ) {i j : ι} (o : Obj κ) (h : j ≠ i) :
    (s.set i o).objs j = s.objs j := Function.update_of_ne h ..

/-- What holds of every object holds after one of them has changed, if it holds of that one. -/
theorem State.forall_set {p : ι → Obj κ → Prop} {s : State ι κ} {i : ι} {o : Obj κ} (ho : p i o)
    (hs : ∀ j, j ≠ i → p j (s.objs j)) (j : ι) : p j ((s.set i o).objs j) :=
  (Function.forall_update_iff s.objs p).mpr ⟨ho, hs⟩ j

end Set

end DdsApps.Entities
