import Kpp.ObjectLives
import Kpp.StepRun

/-!
# Expected and the union it switches by hand

An `Expected` keeps a value or an error in an untagged union next to the tag
`has_value_`. Constructors and the destructor pick a member by the tag, and
the move assignment destroys the whole object and constructs it again in
place. A moved-from object keeps its tag and a member of its own. The source
of an assignment is read after the destruction of the target, whose payload
may own memory with other objects in it, the source among them.
-/

namespace Kpp.ExpectedLifetimes

open ObjectLives StepRun

variable {H T E : Type*}

/-- A live member of a union. -/
structure Member (V : Type*) where
  /-- Number of the object. -/
  id : ℕ
  /-- What it holds. -/
  payload : V

/-- `Expected`; a member of the union that is not alive is `none`. -/
structure Expected (T E : Type*) where
  /-- `value_`. -/
  value : Option (Member T)
  /-- `error_`. -/
  error : Option (Member E)
  /-- `has_value_`. -/
  hasValue : Bool

/-- An object that the destructor of a payload gives up. -/
structure Drop (H : Type*) where
  /-- Its storage. -/
  cell : H
  /-- Its own destructor runs; otherwise the storage is only freed. -/
  destroyed : Bool

/-- What values and errors do when they are moved from and destroyed. -/
structure Payloads (H T E : Type*) where
  /-- A moved-from value. -/
  leftValue : T → T
  /-- A moved-from error. -/
  leftError : E → E
  /-- Objects in memory owned by a value, those that they own included, in the
  order in which its destructor gives them up. -/
  dropsValue : T → (H → Option (Expected T E)) → List (Drop H)
  /-- Objects in memory owned by an error. -/
  dropsError : E → (H → Option (Expected T E)) → List (Drop H)
  /-- The tag that is read in storage without an object. -/
  junk : H → Bool

/-- Construct an object from another one's payload. -/
def construct {V : Type*} (payload : V) (l : Lives) : Member V×Lives := (⟨l.next,payload⟩,l.begin)

/-- Run the destructor of a member. -/
def destroyMember {V : Type*} (m : Option (Member V)) (l : Lives) : Lives :=
  match m with
  | some m => l.finish m.id
  | none => l.misuse

/-- Move-construct a member from another one: the new member and the source. -/
def moveMember {V : Type*} (left : V → V) (source : Option (Member V)) (l : Lives) :
    Option (Member V)×Option (Member V)×Lives :=
  match source with
  | some m =>
    let made := construct m.payload l
    (some made.1,some ⟨m.id,left m.payload⟩,made.2)
  | none => (none,none,l.misuse)

/-- `Expected(const T&)`. -/
def Expected.copyValue (val : T) (l : Lives) : Expected T E×Lives :=
  let made := construct val l
  (⟨some made.1,none,true⟩,made.2)

/-- `Expected(T&&)`, with what it leaves of its argument. -/
def Expected.moveValue (c : Payloads H T E) (val : T) (l : Lives) : Expected T E×T×Lives :=
  let made := construct val l
  (⟨some made.1,none,true⟩,c.leftValue val,made.2)

/-- `Expected(const E&)`. -/
def Expected.copyError (err : E) (l : Lives) : Expected T E×Lives :=
  let made := construct err l
  (⟨none,some made.1,false⟩,made.2)

/-- `Expected(E&&)`, with what it leaves of its argument. -/
def Expected.moveError (c : Payloads H T E) (err : E) (l : Lives) : Expected T E×E×Lives :=
  let made := construct err l
  (⟨none,some made.1,false⟩,c.leftError err,made.2)

/-- `~Expected()`, as far as the object itself goes. -/
def Expected.destruct (this : Expected T E) (l : Lives) : Expected T E×Lives :=
  if this.hasValue=true then ({this with value := none},destroyMember this.value l)
  else ({this with error := none},destroyMember this.error l)

/-- What the destructor of the payload gives up. -/
def Expected.drops (c : Payloads H T E) (this : Expected T E) (cells : H → Option (Expected T E)) :
    List (Drop H) :=
  if this.hasValue=true then (this.value.map (fun m => c.dropsValue m.payload cells)).getD []
  else (this.error.map (fun m => c.dropsError m.payload cells)).getD []

/-- `Expected(Expected&&)`: the new object and the source. -/
def Expected.moveFrom (c : Payloads H T E) (other : Expected T E) (l : Lives) :
    Expected T E×Expected T E×Lives :=
  if other.hasValue=true then
    let moved := moveMember c.leftValue other.value l
    (⟨moved.1,none,other.hasValue⟩,{other with value := moved.2.1},moved.2.2)
  else
    let moved := moveMember c.leftError other.error l
    (⟨none,moved.1,other.hasValue⟩,{other with error := moved.2.1},moved.2.2)

/-- Operations on objects in storage cells. -/
inductive Action (H T E : Type*) where
  | copyValue (h : H) (val : T)
  | moveValue (h : H) (val : T)
  | copyError (h : H) (err : E)
  | moveError (h : H) (err : E)
  | moveConstruct (dst src : H)
  | moveAssign (dst src : H)
  | destroy (h : H)

/-- Objects in their cells; raw storage is `none`. -/
structure State (H T E : Type*) where
  /-- The cells. -/
  cells : H → Option (Expected T E)
  /-- Lives of all members. -/
  lives : Lives

/-- No object yet. -/
def start : State H T E := ⟨fun _ => none,Lives.start⟩

section Steps
variable [DecidableEq H]

/-- A constructed object goes into raw storage. -/
def State.place (s : State H T E) (h : H) (made : Expected T E×Lives) : Option (State H T E) :=
  match s.cells h with
  | none => some ⟨Function.update s.cells h (some made.1),made.2⟩
  | some _ => none

/-- An object in memory of a payload is given up. -/
def State.drop (s : State H T E) (d : Drop H) : State H T E :=
  match s.cells d.cell with
  | some x =>
    ⟨Function.update s.cells d.cell none,
      if d.destroyed=true then (x.destruct s.lives).2 else s.lives.lose⟩
  | none => ⟨s.cells,s.lives.misuse⟩

/-- `~Expected()` of the object in a cell, and what its payload owns. -/
def State.destruct (c : Payloads H T E) (h : H) (this : Expected T E) (s : State H T E) :
    State H T E :=
  (this.drops c s.cells).foldl State.drop
    ⟨Function.update s.cells h none,(this.destruct s.lives).2⟩

/-- `new (this) Expected(static_cast<Expected&&>(other))`, with both in cells. -/
def State.moveInto (c : Payloads H T E) (dst src : H) (s : State H T E) : State H T E :=
  match s.cells src with
  | some other =>
    let moved := other.moveFrom c s.lives
    ⟨Function.update (Function.update s.cells dst (some moved.1)) src (some moved.2.1),moved.2.2⟩
  -- The tag and the member are read where no object is any more.
  | none => ⟨Function.update s.cells dst (some ⟨none,none,c.junk src⟩),s.lives.misuse⟩

/-- `operator=(Expected&&)` of the objects in two cells. -/
def State.moveAssign (c : Payloads H T E) (dst src : H) (this : Expected T E) (s : State H T E) :
    State H T E :=
  if dst=src then s else (s.destruct c dst this).moveInto c dst src

/-- One operation. -/
def step (c : Payloads H T E) (s : State H T E) : Action H T E → Option (State H T E)
  | .copyValue h val => s.place h (Expected.copyValue val s.lives)
  | .moveValue h val =>
    let made := Expected.moveValue c val s.lives
    s.place h (made.1,made.2.2)
  | .copyError h err => s.place h (Expected.copyError err s.lives)
  | .moveError h err =>
    let made := Expected.moveError c err s.lives
    s.place h (made.1,made.2.2)
  | .moveConstruct dst src =>
    match s.cells dst,s.cells src with
    | none,some _ => some (s.moveInto c dst src)
    | _,_ => none
  | .moveAssign dst src =>
    match s.cells dst,s.cells src with
    | some this,some _ => some (s.moveAssign c dst src this)
    | _,_ => none
  | .destroy h => (s.cells h).map (fun this => s.destruct c h this)

end Steps

/-- The tag tells which member of the union is alive. -/
def Expected.Tagged (x : Expected T E) : Prop :=
  (x.hasValue=true ∧ x.value.isSome=true ∧ x.error=none) ∨
    (x.hasValue=false ∧ x.value=none ∧ x.error.isSome=true)

/-- The member that is alive. -/
def Expected.member (x : Expected T E) : Option ℕ :=
  (x.value.map Member.id).or (x.error.map Member.id)

/-- What the tag says is there. -/
def Expected.payload (x : Expected T E) : Option T×Option E :=
  if x.hasValue=true then (x.value.map Member.payload,none)
  else (none,x.error.map Member.payload)

/-- Members are alive exactly where tags say so, and are destroyed once. -/
structure Lifetimes (s : State H T E) : Prop where
  /-- Tags are right. -/
  tagged : ∀ h x,s.cells h=some x → x.Tagged
  /-- A member that is alive was not destroyed. -/
  alive : ∀ h x id,s.cells h=some x → x.member=some id → s.lives.ends id=0
  /-- Every other member that was constructed was destroyed once. -/
  once : ∀ id,id< s.lives.next → (∀ h x,s.cells h=some x → x.member≠some id) →
    s.lives.ends id=1
  /-- No member that is not alive was moved from, destroyed or read. -/
  proper : s.lives.misused=false
  /-- No storage was given up with a live member in it. -/
  whole : s.lives.lost=false
  /-- Without objects nothing is alive. -/
  cleared : (∀ h,s.cells h=none) → ∀ id,id< s.lives.next → s.lives.ends id=1

/-- A move gives its target the source's tag and payload. -/
def Transfers [DecidableEq H] (c : Payloads H T E) (s : State H T E) (a : Action H T E) : Prop :=
  ∀ dst src,a=.moveConstruct dst src ∨ a=.moveAssign dst src → ∀ t x,step c s a=some t →
    s.cells src=some x →
    ∃ y,t.cells dst=some y ∧ y.hasValue=x.hasValue ∧ y.payload=x.payload

/-- The live member in each cell. -/
def State.held (s : State H T E) (h : H) : Option ℕ := (s.cells h).bind Expected.member

/-- Tags are right and the ledger of members is kept. -/
structure Sound (s : State H T E) : Prop where
  /-- Tags are right. -/
  tagged : ∀ h x,s.cells h=some x → x.Tagged
  /-- Members are alive in cells and nowhere else. -/
  kept : Kept s.held s.lives

/-- Objects that are given up are there, each once, and are destroyed. -/
structure Orderly (cells : H → Option (Expected T E)) (drops : List (Drop H)) : Prop where
  /-- They are there. -/
  there : ∀ d∈drops,cells d.cell≠none
  /-- Their destructors run. -/
  destroyed : ∀ d∈drops,d.destroyed=true
  /-- None is given up twice. -/
  once : (drops.map Drop.cell).Nodup

/-- Destructors of payloads give up other objects than the one that they are
in, all of which are there and destroyed, each once. In a move assignment the
source is not among them. -/
def Apart [DecidableEq H] (c : Payloads H T E) (s : State H T E) : Action H T E → Prop
  | .moveAssign dst src => dst≠src → ∀ this,s.cells dst=some this →
    Orderly (Function.update s.cells dst none) (this.drops c s.cells) ∧
      src∉(this.drops c s.cells).map Drop.cell
  | .destroy h => ∀ this,s.cells h=some this →
    Orderly (Function.update s.cells h none) (this.drops c s.cells)
  | _ => True

variable {c : Payloads H T E} {s t : State H T E}

/-- Sound states have proper lifetimes. -/
theorem Sound.lifetimes (hs : Sound s) : Lifetimes s := by
  have hheld : ∀ h x,s.cells h=some x → s.held h=x.member := by
    intro h x hx
    unfold State.held
    rw [hx]
    rfl
  refine ⟨hs.tagged,?_,?_,hs.kept.proper,hs.kept.whole,?_⟩
  · intro h x id hx hid
    exact (hs.kept.alive h id ((hheld h x hx).trans hid)).2
  · intro id hid hgone
    refine hs.kept.ended id hid (fun h hh => ?_)
    obtain ⟨x,hx,hmember⟩ := Option.bind_eq_some_iff.mp hh
    exact hgone h x hx hmember
  · intro hraw id hid
    refine hs.kept.ended id hid (fun h hh => ?_)
    unfold State.held at hh
    rw [hraw h] at hh
    cases hh

/-- Nothing went wrong where lifetimes are right. -/
theorem Lifetimes.unspoiled (hl : Lifetimes s) : ¬s.lives.Spoiled := by
  rintro (hmisused | hlost)
  · exact Bool.false_ne_true (hl.proper.symm.trans hmisused)
  · exact Bool.false_ne_true (hl.whole.symm.trans hlost)

/-- The destructor of a tagged object ends its live member. -/
theorem Expected.Tagged.destruct {x : Expected T E} (hx : x.Tagged) (l : Lives) :
    ∃ id,x.member=some id ∧ (x.destruct l).2=l.finish id := by
  rcases hx with ⟨htag,hvalue,_⟩ | ⟨htag,hvalue,herror⟩
  · obtain ⟨m,hm⟩ := Option.isSome_iff_exists.mp hvalue
    refine ⟨m.id,?_,?_⟩
    · simp only [Expected.member,hm,Option.map_some,Option.some_or]
    · simp only [Expected.destruct,htag,if_true,hm,destroyMember]
  · obtain ⟨m,hm⟩ := Option.isSome_iff_exists.mp herror
    refine ⟨m.id,?_,?_⟩
    · simp only [Expected.member,hvalue,hm,Option.map_none,Option.map_some,Option.none_or]
    · simp only [Expected.destruct,htag,Bool.false_eq_true,if_false,hm,destroyMember]

/-- A move from a tagged object constructs a member of the same kind with its
payload, and the source keeps its own. -/
theorem Expected.Tagged.moveFrom {x : Expected T E} (hx : x.Tagged) (c : Payloads H T E)
    (l : Lives) :
    ((x.moveFrom c l).1.Tagged ∧ (x.moveFrom c l).1.member=some l.next ∧
      (x.moveFrom c l).1.hasValue=x.hasValue ∧ (x.moveFrom c l).1.payload=x.payload) ∧
    (x.moveFrom c l).2.1.Tagged ∧ (x.moveFrom c l).2.1.member=x.member ∧
      (x.moveFrom c l).2.2=l.begin := by
  obtain ⟨value,error,hasValue⟩ := x
  rcases hx with ⟨htag,hvalue,herror⟩ | ⟨htag,hvalue,herror⟩
  · obtain ⟨m,hm⟩ := Option.isSome_iff_exists.mp hvalue
    dsimp only at htag hm herror
    subst htag hm herror
    exact ⟨⟨Or.inl ⟨rfl,rfl,rfl⟩,rfl,rfl,rfl⟩,Or.inl ⟨rfl,rfl,rfl⟩,rfl,rfl⟩
  · obtain ⟨m,hm⟩ := Option.isSome_iff_exists.mp herror
    dsimp only at htag hm hvalue
    subst htag hm hvalue
    exact ⟨⟨Or.inr ⟨rfl,rfl,rfl⟩,rfl,rfl,rfl⟩,Or.inr ⟨rfl,rfl,rfl⟩,rfl,rfl⟩

variable [DecidableEq H]

/-- The live members after one cell was overwritten. -/
theorem held_update (cells : H → Option (Expected T E)) (l l' : Lives) (h : H)
    (x : Option (Expected T E)) :
    (⟨Function.update cells h x,l⟩ : State H T E).held=
      Function.update (⟨cells,l'⟩ : State H T E).held h (x.bind Expected.member) := by
  funext h'
  unfold State.held
  dsimp only
  by_cases he : h'=h
  · subst he
    rw [Function.update_self,Function.update_self]
  · rw [Function.update_of_ne he,Function.update_of_ne he]

/-- Tags stay right when one cell gets a tagged object or none. -/
theorem tagged_update {cells : H → Option (Expected T E)}
    (hc : ∀ h x,cells h=some x → x.Tagged) (h : H) {x : Option (Expected T E)}
    (hx : ∀ y,x=some y → y.Tagged) :
    ∀ h' y,Function.update cells h x h'=some y → y.Tagged := by
  intro h' y hy
  by_cases he : h'=h
  · subst he
    rw [Function.update_self] at hy
    exact hx y hy
  · rw [Function.update_of_ne he] at hy
    exact hc h' y hy

/-- A constructor puts a tagged object with a new member into raw storage. -/
theorem Sound.place (hs : Sound s) {h : H} {made : Expected T E×Lives} (htag : made.1.Tagged)
    (hmember : made.1.member=some s.lives.next) (hlives : made.2=s.lives.begin)
    (h' : s.place h made=some t) : Sound t := by
  cases hraw : s.cells h with
  | some x => simp only [State.place,hraw,reduceCtorEq] at h'
  | none =>
    simp only [State.place,hraw,Option.some.injEq] at h'
    subst h'
    constructor
    · refine tagged_update hs.tagged h ?_
      rintro _ ⟨⟩
      exact htag
    · rw [held_update s.cells made.2 s.lives h,Option.bind_some,hmember,hlives]
      refine hs.kept.begin ?_
      unfold State.held
      rw [hraw]
      rfl

/-- The move into a cell without a live member: the target gets a new one, and
the source keeps its own. -/
theorem Sound.moveInto (hs : Sound s) (c : Payloads H T E) {dst src : H} (hne : dst≠src)
    (hraw : s.cells dst=none) {x : Expected T E} (hx : s.cells src=some x) :
    Sound (s.moveInto c dst src) := by
  obtain ⟨⟨htag,hmember,_⟩,hleft,hkeeps,hlives⟩ := (hs.tagged src x hx).moveFrom c s.lives
  have heq : s.moveInto c dst src=
      ⟨Function.update (Function.update s.cells dst (some (x.moveFrom c s.lives).1)) src
        (some (x.moveFrom c s.lives).2.1),(x.moveFrom c s.lives).2.2⟩ := by
    simp only [State.moveInto,hx]
  rw [heq]
  constructor
  · refine tagged_update (tagged_update hs.tagged dst ?_) src ?_
    · rintro _ ⟨⟩
      exact htag
    · rintro _ ⟨⟩
      exact hleft
  · have hheld : s.held src=x.member := by
      unfold State.held
      rw [hx]
      rfl
    rw [held_update _ _ s.lives src,held_update s.cells s.lives s.lives dst,Option.bind_some,
      Option.bind_some,hmember,hkeeps,hlives,Function.update_eq_self_iff.mpr]
    · refine hs.kept.begin ?_
      change (s.cells dst).bind _=none
      rw [hraw]
      rfl
    · rw [Function.update_of_ne (Ne.symm hne)]
      exact hheld.symm

/-- A destructor call ends the member that is alive in its cell. -/
theorem Sound.destroy (hs : Sound s) {h : H} {x : Expected T E} (hx : s.cells h=some x) :
    Sound (⟨Function.update s.cells h none,(x.destruct s.lives).2⟩ : State H T E) := by
  obtain ⟨id,hid,hlives⟩ := (hs.tagged h x hx).destruct s.lives
  constructor
  · exact tagged_update hs.tagged h nofun
  · rw [held_update s.cells _ s.lives h,hlives]
    refine hs.kept.finish ?_
    unfold State.held
    rw [hx]
    exact hid

/-- What is given up is not there any more. -/
theorem drop_cells (s : State H T E) (d : Drop H) :
    (s.drop d).cells=Function.update s.cells d.cell none := by
  unfold State.drop
  cases hx : s.cells d.cell with
  | some x => rfl
  | none =>
    funext h
    by_cases he : h=d.cell
    · rw [he,Function.update_self]
      exact hx
    · rw [Function.update_of_ne he]

/-- Everything else is still there. -/
theorem drops_cells (drops : List (Drop H)) (s : State H T E) (h : H) :
    (drops.foldl State.drop s).cells h=
      if h∈drops.map Drop.cell then none else s.cells h := by
  induction drops generalizing s with
  | nil => rfl
  | cons d drops ih =>
    rw [List.foldl_cons,ih,drop_cells,List.map_cons]
    by_cases hin : h∈drops.map Drop.cell
    · rw [if_pos hin,if_pos (List.mem_cons_of_mem _ hin)]
    · by_cases he : h=d.cell
      · rw [if_neg hin,he,Function.update_self,if_pos List.mem_cons_self]
      · rw [if_neg hin,Function.update_of_ne he,if_neg]
        exact fun hmem => (List.mem_cons.mp hmem).elim he hin

/-- After a destructor call the object is gone, and what its payload gave up. -/
theorem destruct_cells (c : Payloads H T E) (h : H) (x : Expected T E) (s : State H T E) (h' : H) :
    (s.destruct c h x).cells h'=
      if h'=h ∨ h'∈(x.drops c s.cells).map Drop.cell then none else s.cells h' := by
  rw [State.destruct,drops_cells]
  by_cases hin : h'∈(x.drops c s.cells).map Drop.cell
  · rw [if_pos hin,if_pos (Or.inr hin)]
  · rw [if_neg hin]
    dsimp only
    by_cases he : h'=h
    · rw [he,Function.update_self,if_pos (Or.inl rfl)]
    · rw [Function.update_of_ne he,if_neg (not_or.mpr ⟨he,hin⟩)]

/-- Drops are orderly when the first is, and the others without it. -/
theorem orderly_cons (cells : H → Option (Expected T E)) (d : Drop H) (drops : List (Drop H)) :
    Orderly cells (d::drops) ↔ (cells d.cell≠none ∧ d.destroyed=true) ∧
      Orderly (Function.update cells d.cell none) drops := by
  constructor
  · intro h
    have honce := List.nodup_cons.mp h.once
    refine ⟨⟨h.there d List.mem_cons_self,h.destroyed d List.mem_cons_self⟩,?_,?_,honce.2⟩
    · intro e he
      have hne : e.cell≠d.cell := fun heq => honce.1 (heq ▸ List.mem_map_of_mem he)
      rw [Function.update_of_ne hne]
      exact h.there e (List.mem_cons_of_mem d he)
    · exact fun e he => h.destroyed e (List.mem_cons_of_mem d he)
  · rintro ⟨⟨hthere,hdestroyed⟩,h⟩
    have hother : ∀ e∈drops,e.cell≠d.cell := by
      intro e he heq
      refine h.there e he ?_
      rw [heq,Function.update_self]
    refine ⟨?_,?_,List.nodup_cons.mpr ⟨?_,h.once⟩⟩
    · rw [List.forall_mem_cons]
      refine ⟨hthere,fun e he => ?_⟩
      have hleft := h.there e he
      rw [Function.update_of_ne (hother e he)] at hleft
      exact hleft
    · rw [List.forall_mem_cons]
      exact ⟨hdestroyed,h.destroyed⟩
    · intro hmem
      obtain ⟨e,he,heq⟩ := List.mem_map.mp hmem
      exact hother e he heq

/-- Orderly drops keep states sound. -/
theorem Sound.drops {drops : List (Drop H)} (hs : Sound s) (ho : Orderly s.cells drops) :
    Sound (drops.foldl State.drop s) := by
  induction drops generalizing s with
  | nil => exact hs
  | cons d drops ih =>
    obtain ⟨⟨hthere,hdestroyed⟩,hrest⟩ := (orderly_cons s.cells d drops).mp ho
    obtain ⟨x,hx⟩ := Option.ne_none_iff_exists'.mp hthere
    rw [List.foldl_cons]
    refine ih ?_ (by rw [drop_cells]; exact hrest)
    have heq : s.drop d=⟨Function.update s.cells d.cell none,(x.destruct s.lives).2⟩ := by
      simp only [State.drop,hx,if_pos hdestroyed]
    rw [heq]
    exact hs.destroy hx

/-- An orderly destruction keeps states sound. -/
theorem Sound.destruct (hs : Sound s) {h : H} {x : Expected T E} (hx : s.cells h=some x)
    (ho : Orderly (Function.update s.cells h none) (x.drops c s.cells)) :
    Sound (s.destruct c h x) :=
  (hs.destroy hx).drops ho

/-- Steps within the condition keep states sound. -/
theorem step_kept {a : Action H T E} (hs : Sound s) (hg : Apart c s a)
    (h : step c s a=some t) : Sound t := by
  cases a with
  | copyValue dst val => exact hs.place (Or.inl ⟨rfl,rfl,rfl⟩) rfl rfl h
  | moveValue dst val => exact hs.place (Or.inl ⟨rfl,rfl,rfl⟩) rfl rfl h
  | copyError dst err => exact hs.place (Or.inr ⟨rfl,rfl,rfl⟩) rfl rfl h
  | moveError dst err => exact hs.place (Or.inr ⟨rfl,rfl,rfl⟩) rfl rfl h
  | moveConstruct dst src =>
    cases hd : s.cells dst with
    | some this => simp only [step,hd,reduceCtorEq] at h
    | none =>
      cases hx : s.cells src with
      | none => simp only [step,hd,hx,reduceCtorEq] at h
      | some x =>
        simp only [step,hd,hx,Option.some.injEq] at h
        subst h
        have hne : dst≠src := by
          rintro rfl
          rw [hd] at hx
          cases hx
        exact hs.moveInto c hne hd hx
  | moveAssign dst src =>
    cases hd : s.cells dst with
    | none => simp only [step,hd,reduceCtorEq] at h
    | some this =>
      cases hx : s.cells src with
      | none => simp only [step,hd,hx,reduceCtorEq] at h
      | some x =>
        by_cases hne : dst=src
        · simp only [step,hd,hx,State.moveAssign,if_pos hne,Option.some.injEq] at h
          exact h ▸ hs
        · simp only [step,hd,hx,State.moveAssign,if_neg hne,Option.some.injEq] at h
          subst h
          obtain ⟨horderly,hsrc⟩ := hg hne this hd
          refine (hs.destruct hd horderly).moveInto c hne (x := x) ?_ ?_
          · rw [destruct_cells,if_pos (Or.inl rfl)]
          · rw [destruct_cells,if_neg (not_or.mpr ⟨Ne.symm hne,hsrc⟩),hx]
  | destroy dst =>
    obtain ⟨x,hx,rfl⟩ := Option.map_eq_some_iff.mp h
    exact hs.destruct hx (hg x hx)

/-- Steps within the condition transfer tag and payload. -/
theorem Sound.transfers (hs : Sound s) {a : Action H T E} (hg : Apart c s a) :
    Transfers c s a := by
  intro dst src ha t x h hx
  rcases ha with rfl | rfl
  · cases hd : s.cells dst with
    | some this => simp only [step,hd,reduceCtorEq] at h
    | none =>
      simp only [step,hd,hx,State.moveInto,Option.some.injEq] at h
      subst h
      have hne : dst≠src := by
        rintro rfl
        rw [hd] at hx
        cases hx
      obtain ⟨⟨_,_,htag,hpayload⟩,_⟩ := (hs.tagged src x hx).moveFrom c s.lives
      refine ⟨_,?_,htag,hpayload⟩
      dsimp only
      rw [Function.update_of_ne hne,Function.update_self]
  · cases hd : s.cells dst with
    | none => simp only [step,hd,reduceCtorEq] at h
    | some this =>
      by_cases hne : dst=src
      · simp only [step,hd,hx,State.moveAssign,if_pos hne,Option.some.injEq] at h
        subst h hne
        exact ⟨x,hx,rfl,rfl⟩
      · have hsrc : (s.destruct c dst this).cells src=some x := by
          rw [destruct_cells,if_neg (not_or.mpr ⟨Ne.symm hne,(hg hne this hd).2⟩),hx]
        simp only [step,hd,hx,State.moveAssign,if_neg hne,State.moveInto,hsrc,
          Option.some.injEq] at h
        subst h
        obtain ⟨⟨_,_,htag,hpayload⟩,_⟩ :=
          (hs.tagged src x hx).moveFrom c (s.destruct c dst this).lives
        refine ⟨_,?_,htag,hpayload⟩
        dsimp only
        rw [Function.update_of_ne hne,Function.update_self]

/-- What went wrong before a destructor call is still wrong. -/
theorem spoiled_destruct {l : Lives} (h : l.Spoiled) (x : Expected T E) :
    (x.destruct l).2.Spoiled := by
  unfold Expected.destruct
  split
  · cases x.value with
    | some m => exact h
    | none => exact Or.inl rfl
  · cases x.error with
    | some m => exact h
    | none => exact Or.inl rfl

/-- What went wrong before an object is given up is still wrong. -/
theorem spoiled_drop (h : s.lives.Spoiled) (d : Drop H) : (s.drop d).lives.Spoiled := by
  unfold State.drop
  cases s.cells d.cell with
  | some x =>
    dsimp only
    split
    · exact spoiled_destruct h x
    · exact Or.inr rfl
  | none => exact Or.inl rfl

/-- Drops that leave nothing wrong were orderly, and nothing was wrong before. -/
theorem orderly_of_drops {drops : List (Drop H)}
    (h : ¬(drops.foldl State.drop s).lives.Spoiled) :
    ¬s.lives.Spoiled ∧ Orderly s.cells drops := by
  induction drops generalizing s with
  | nil => exact ⟨h,nofun,nofun,List.nodup_nil⟩
  | cons d drops ih =>
    obtain ⟨hnow,hrest⟩ := ih h
    rw [drop_cells] at hrest
    refine ⟨fun hs => hnow (spoiled_drop hs d),(orderly_cons s.cells d drops).mpr ⟨?_,hrest⟩⟩
    unfold State.drop at hnow
    cases hx : s.cells d.cell with
    | none =>
      simp only [hx] at hnow
      exact absurd (Or.inl rfl) hnow
    | some x =>
      refine ⟨Option.some_ne_none x,?_⟩
      by_contra hfreed
      simp only [hx,if_neg hfreed] at hnow
      exact hnow (Or.inr rfl)

/-- A move that leaves nothing wrong found its source, and nothing was wrong
before. -/
theorem source_of_moveInto {dst src : H} (h : ¬(s.moveInto c dst src).lives.Spoiled) :
    ¬s.lives.Spoiled ∧ s.cells src≠none := by
  unfold State.moveInto at h
  cases hx : s.cells src with
  | none =>
    simp only [hx] at h
    exact absurd (Or.inl rfl) h
  | some x =>
    refine ⟨fun hs => h ?_,Option.some_ne_none x⟩
    simp only [hx]
    unfold Expected.moveFrom
    split
    · cases x.value with
      | some m => exact hs
      | none => exact Or.inl rfl
    · cases x.error with
      | some m => exact hs
      | none => exact Or.inl rfl

/-- A step after which lifetimes are right was within the condition. -/
theorem step_exact {a : Action H T E} (h : step c s a=some t) (hl : Lifetimes t) :
    Apart c s a := by
  cases a with
  | copyValue dst val => trivial
  | moveValue dst val => trivial
  | copyError dst err => trivial
  | moveError dst err => trivial
  | moveConstruct dst src => trivial
  | moveAssign dst src =>
    intro hne this hd
    cases hx : s.cells src with
    | none => simp only [step,hd,hx,reduceCtorEq] at h
    | some x =>
      simp only [step,hd,hx,State.moveAssign,if_neg hne,Option.some.injEq] at h
      subst h
      obtain ⟨hdestroyed,hsource⟩ := source_of_moveInto hl.unspoiled
      refine ⟨(orderly_of_drops hdestroyed).2,fun hmem => hsource ?_⟩
      rw [destruct_cells,if_pos (Or.inr hmem)]
  | destroy dst =>
    intro x hx
    simp only [step,hx,Option.map_some,Option.some.injEq] at h
    subst h
    exact (orderly_of_drops hl.unspoiled).2

/-- Lifetimes of Expected. In a run members of all objects live where the tags
say and are destroyed once, and moves transfer tags and payloads, if and only
if every step is within the condition. -/
theorem expected_lifetimes_iff (c : Payloads H T E) (actions : List (Action H T E)) :
    Along (step c) Lifetimes start actions ∧ Guarded (step c) (Transfers c) start actions ↔
      Guarded (step c) (Apart c) start actions := by
  have hstart : Sound (start : State H T E) := ⟨nofun,kept_start⟩
  have hkept : ∀ {s : State H T E} {a : Action H T E} {t : State H T E},
      Sound s → Apart c s a → step c s a=some t → Sound t := fun hs hg h => step_kept hs hg h
  have hiff : Along (step c) Lifetimes start actions ↔ Guarded (step c) (Apart c) start actions :=
    along_iff_guarded Sound.lifetimes hkept (fun _ h hl => step_exact h hl) hstart
  refine ⟨fun h => hiff.mp h.1,fun hg => ⟨hiff.mpr hg,?_⟩⟩
  exact guarded_of_guarded (fun hs hg _ => hs.transfers hg) hkept hstart hg

/-- Values that own the objects in some cells and destroy them, and that own
nothing when moved from. -/
def nodes : Payloads ℕ (List ℕ) Unit where
  leftValue := fun _ => []
  leftError := id
  dropsValue := fun owned _ => owned.map (⟨·,true⟩)
  dropsError := fun _ _ => []
  junk := fun _ => false

/-- An object is assigned from the one that its own value owns, as in
`head = move(head->next)`: the source is destroyed first, and the target gets
neither a member nor the source's tag. -/
theorem assign_from_own_payload :
    ∃ s t,run (step nodes) start [.moveValue 1 [],.moveValue 0 [1]]=some s ∧
      (s.cells 1).map Expected.payload=some (some [],none) ∧
      step nodes s (.moveAssign 0 1)=some t ∧
      (t.cells 0).map Expected.payload=some (none,none) ∧ t.lives.misused=true ∧
      ¬Lifetimes t := by
  refine ⟨_,_,rfl,rfl,rfl,rfl,rfl,fun h => ?_⟩
  exact h.unspoiled (Or.inl rfl)

end Kpp.ExpectedLifetimes
