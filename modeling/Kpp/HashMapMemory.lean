import Kpp.HashBuckets
import Kpp.UniqueHandle

/-!
# Memory of a HashMap

The bucket array belongs to the UniquePtr member of the map. A node belongs
to the UniquePtr of `insert` until `release`, and from then on only its
link in a list refers to it. The destructor is the implicit one: it destroys
the member, whose deleter hands the array to `kfree`.
-/

namespace Kpp.HashMapMemory

open HashBuckets (Error Fault enomem)
open MoveOnlyHandle UniqueHandle StepRun

/-- What `make_unique` constructed in a block. -/
inductive Block (Key Value : Type*) where
  /-- The bucket array, each list as the addresses of its nodes in order. -/
  | buckets (lists : List (List ℕ))
  /-- A node with its key and value. -/
  | node (key : Key) (value : Value)

/-- The slab, and the destructor calls on what nodes store. -/
structure Memory (Key Value : Type*) where
  /-- Blocks and their `kfree` calls. -/
  slab : Slab (Block Key Value)
  /-- Destructor calls on the key of the node at an address. -/
  keyEnds : ℕ → ℕ
  /-- Destructor calls on the value of the node at an address. -/
  valueEnds : ℕ → ℕ

/-- `HashMap`; the hasher is passed to the calls. -/
structure HashMap where
  /-- `buckets_`. -/
  buckets : UniquePtr
  /-- `bucket_count_`. -/
  bucketCount : ℕ

variable {Key Value : Type*}

/-- The constructor, with the outcome of the array's allocation. -/
def HashMap.create (bucketCount : ℕ) (allocated : Bool) (m : Memory Key Value) :
    HashMap×Memory Key Value :=
  let (temp,slab) := makeUnique (.buckets (List.replicate bucketCount [])) allocated m.slab
  let (buckets,temp,slab) := assignFrom defaultDeleter ⟨none⟩ temp slab
  (⟨buckets,bucketCount⟩,{m with slab := UniquePtr.destruct temp slab})

/-- `hasher_(key) % bucket_count_`. -/
def HashMap.index (this : HashMap) (hasher : Key → ℕ) (key : Key) : Except Fault ℕ :=
  if this.bucketCount=0 then .error .divideByZero else .ok (hasher key % this.bucketCount)

/-- `bucket.add_tail(&node_ptr.release()->list_node)` for the list at this
index of the array. -/
def addTail (array hash node : ℕ) (slab : Slab (Block Key Value)) :
    Except Fault (Slab (Block Key Value)) :=
  match slab.object array with
  | some (.buckets lists) =>
    match lists[hash]? with
    | some bucket => .ok (slab.write array (.buckets (lists.set hash (bucket++[node]))))
    | none => .error .outOfBounds
  | _ => .error .outOfBounds

/-- `HashMap::insert`, with the outcome of the node's allocation. The node's
handle is destroyed at the end of either branch. -/
def HashMap.insert [Inhabited Key] [Inhabited Value] (this : HashMap) (hasher : Key → ℕ)
    (key : Key) (value : Value) (allocated : Bool) (m : Memory Key Value) :
    Except Fault (Error×Memory Key Value) :=
  match this.buckets.held with
  | none => .ok (⟨enomem⟩,m)
  | some array =>
    (this.index hasher key).bind (fun hash =>
      let (nodePtr,slab) := makeUnique (.node default default) allocated m.slab
      match nodePtr.held with
      | none => .ok (⟨enomem⟩,{m with slab := UniquePtr.destruct nodePtr slab})
      | some addr =>
        let slab := slab.write addr (.node key value)
        let (_,nodePtr) := UniquePtr.release nodePtr
        (addTail array hash addr slab).map (fun slab =>
          (⟨0⟩,{m with slab := UniquePtr.destruct nodePtr slab})))

/-- The implicit destructor of the map. -/
def HashMap.destruct (this : HashMap) (m : Memory Key Value) : Memory Key Value :=
  {m with slab := this.buckets.destruct m.slab}

/-- A call of `insert`, with the outcome of its allocation. -/
structure Insert (Key Value : Type*) where
  /-- Key to insert. -/
  key : Key
  /-- Value to insert. -/
  value : Value
  /-- The node's allocation succeeds. -/
  allocated : Bool

/-- A live map and its memory. -/
structure State (Key Value : Type*) where
  /-- The map. -/
  map : HashMap
  /-- Its memory. -/
  memory : Memory Key Value

/-- A new map in fresh memory. -/
def start (bucketCount : ℕ) (allocated : Bool) : State Key Value :=
  let created := HashMap.create bucketCount allocated ⟨Slab.empty,fun _ => 0,fun _ => 0⟩
  ⟨created.1,created.2⟩

/-- One insert; there is no step from a fault. -/
def step [Inhabited Key] [Inhabited Value] (hasher : Key → ℕ) (s : State Key Value)
    (c : Insert Key Value) : Option (State Key Value) :=
  match s.map.insert hasher c.key c.value c.allocated s.memory with
  | .error _ => none
  | .ok (_,memory) => some {s with memory := memory}

/-- Every block was freed once, and every stored key and value destroyed once. -/
structure Released (m : Memory Key Value) : Prop where
  /-- The bucket array. -/
  array : ∀ p lists,m.slab.object p=some (.buckets lists) → m.slab.frees p=1
  /-- The nodes with what they store. -/
  nodes : ∀ p key value,m.slab.object p=some (.node key value) →
    m.slab.frees p=1 ∧ m.keyEnds p=1 ∧ m.valueEnds p=1

/-- The insert gets no node: there is no bucket array, or its allocation fails. -/
def Refused (s : State Key Value) (c : Insert Key Value) : Prop :=
  s.map.buckets.held=none ∨ c.allocated=false

/-- The memory of a live map. -/
structure Intact (s : State Key Value) : Prop where
  /-- The slab's addresses are in order. -/
  sane : s.memory.slab.Sane
  /-- The member owns a bucket array. -/
  array : ∀ p,s.map.buckets.held=some p → ∃ lists,s.memory.slab.object p=some (.buckets lists)
  /-- There is no other bucket array. -/
  only : ∀ p lists,s.memory.slab.object p=some (.buckets lists) → s.map.buckets.held=some p
  /-- Nothing was freed. -/
  kept : ∀ p,s.memory.slab.frees p=0

/-- The map has a node. -/
def HasNode (s : State Key Value) : Prop :=
  ∃ p key value,s.memory.slab.object p=some (.node key value)

/-- The map of lists of nodes that the memory holds. -/
structure Represents (s : State Key Value) (m : HashBuckets.HashMap Key Value) : Prop where
  /-- The same number of buckets. -/
  count : m.bucketCount=s.map.bucketCount
  /-- No array on either side. -/
  absent : s.map.buckets.held=none → m.buckets=none
  /-- The array's lists link the nodes of the map's lists. -/
  present : ∀ p,s.map.buckets.held=some p → ∃ buckets,m.buckets=some buckets ∧
    s.memory.slab.object p=some (.buckets (buckets.map (fun b => b.map HashBuckets.Node.addr))) ∧
    ∀ bucket∈buckets,∀ n∈bucket,s.memory.slab.object n.addr=some (.node n.key n.value)

variable {hasher : Key → ℕ} {s t : State Key Value}

/-- The one block of a new map is the array that its member owns. -/
theorem start_object {bucketCount : ℕ} {allocated : Bool} {p : ℕ} {block : Block Key Value}
    (h : (start bucketCount allocated : State Key Value).memory.slab.object p=some block) :
    block=.buckets (List.replicate bucketCount []) ∧
      (start bucketCount allocated : State Key Value).map.buckets.held=some p := by
  cases allocated with
  | false => cases h
  | true =>
    have hobject := Slab.construct_object
      (Block.buckets (List.replicate bucketCount []) : Block Key Value) Slab.empty p
    have hcases := hobject.symm.trans h
    split at hcases
    · next he => exact ⟨(Option.some.inj hcases).symm,congrArg some he.symm⟩
    · cases hcases

/-- A new map owns what its constructor allocated. -/
theorem start_intact (bucketCount : ℕ) (allocated : Bool) :
    Intact (start bucketCount allocated : State Key Value) := by
  cases allocated with
  | false => exact ⟨Slab.empty_sane,nofun,fun p lists hp => (start_object hp).2,fun _ => rfl⟩
  | true =>
    refine ⟨Slab.empty_sane.construct _,?_,fun p lists hp => (start_object hp).2,fun _ => rfl⟩
    rintro _ ⟨⟩
    exact ⟨_,rfl⟩

/-- It has no nodes. -/
theorem start_no_node (bucketCount : ℕ) (allocated : Bool) :
    ¬HasNode (start bucketCount allocated : State Key Value) := by
  rintro ⟨p,key,value,hp⟩
  cases (start_object hp).1

/-- Destruction frees the array once, and no node. -/
theorem Intact.destruct_frees (hi : Intact s) (p : ℕ) :
    (s.map.destruct s.memory).slab.frees p=if s.map.buckets.held=some p then 1 else 0 := by
  unfold HashMap.destruct UniquePtr.destruct destruct
  cases hb : s.map.buckets.held with
  | none => exact hi.kept p
  | some array =>
    refine (kfree_frees array p s.memory.slab).trans ?_
    rw [hi.kept p,Nat.zero_add]
    by_cases he : p=array
    · rw [if_pos he,if_pos (congrArg some he.symm)]
    · rw [if_neg he,if_neg (fun h => he (Option.some.inj h).symm)]

/-- Destruction constructs nothing. -/
theorem destruct_object (s : State Key Value) :
    (s.map.destruct s.memory).slab.object=s.memory.slab.object := by
  unfold HashMap.destruct UniquePtr.destruct destruct
  cases s.map.buckets.held with
  | none => rfl
  | some array => rfl

/-- A map without nodes is destroyed completely, one with a node is not. -/
theorem Intact.released_iff (hi : Intact s) :
    Released (s.map.destruct s.memory) ↔ ¬HasNode s := by
  constructor
  · rintro hr ⟨p,key,value,hp⟩
    have hfrees := (hr.nodes p key value (by rw [destruct_object]; exact hp)).1
    rw [hi.destruct_frees p] at hfrees
    by_cases hb : s.map.buckets.held=some p
    · obtain ⟨lists,hl⟩ := hi.array p hb
      rw [hp] at hl
      cases hl
    · rw [if_neg hb] at hfrees
      omega
  · intro hn
    constructor
    · intro p lists hp
      rw [destruct_object] at hp
      rw [hi.destruct_frees p,if_pos (hi.only p lists hp)]
    · intro p key value hp
      rw [destruct_object] at hp
      exact absurd ⟨p,key,value,hp⟩ hn

variable [Inhabited Key] [Inhabited Value]

/-- The slab after a node was constructed, filled in and linked into a list of
the array. -/
def linked (slab : Slab (Block Key Value)) (array : ℕ) (lists : List (List ℕ)) (hash : ℕ)
    (bucket : List ℕ) (key : Key) (value : Value) : Slab (Block Key Value) :=
  ((slab.construct (.node default default)).write slab.next (.node key value)).write array
    (.buckets (lists.set hash (bucket++[slab.next])))

/-- Blocks after a link: the array, the node, and the others as before. -/
theorem linked_object (slab : Slab (Block Key Value)) (array : ℕ) (lists : List (List ℕ))
    (hash : ℕ) (bucket : List ℕ) (key : Key) (value : Value) (p : ℕ) :
    (linked slab array lists hash bucket key value).object p=
      if p=array then some (.buckets (lists.set hash (bucket++[slab.next])))
      else if p=slab.next then some (.node key value) else slab.object p := by
  unfold linked
  rw [Slab.write_object,Slab.write_object,Slab.construct_object]
  split
  · rfl
  · split <;> rfl

/-- An insert gets no node and changes nothing, or links a new node into the
list of its key's index. -/
theorem Intact.insert_cases (hi : Intact s) {key : Key} {value : Value} {allocated : Bool}
    {e : Error} {m : Memory Key Value}
    (h : s.map.insert hasher key value allocated s.memory=.ok (e,m)) :
    ((s.map.buckets.held=none ∨ allocated=false ∧ s.map.bucketCount≠0) ∧
      e=⟨enomem⟩ ∧ m=s.memory) ∨
    (allocated=true ∧ ∃ array lists bucket,s.map.buckets.held=some array ∧
      s.memory.slab.object array=some (.buckets lists) ∧ s.map.bucketCount≠0 ∧
      lists[hasher key % s.map.bucketCount]?=some bucket ∧ e=⟨0⟩ ∧
      m=⟨linked s.memory.slab array lists (hasher key % s.map.bucketCount) bucket key value,
        s.memory.keyEnds,s.memory.valueEnds⟩) := by
  unfold HashMap.insert at h
  cases hb : s.map.buckets.held with
  | none =>
    simp only [hb,Except.ok.injEq,Prod.mk.injEq] at h
    exact Or.inl ⟨Or.inl rfl,h.1.symm,h.2.symm⟩
  | some array =>
    obtain ⟨lists,ha⟩ := hi.array array hb
    by_cases hcount : s.map.bucketCount=0
    · simp only [hb,HashMap.index,hcount,if_true,Except.bind,reduceCtorEq] at h
    · cases allocated with
      | false =>
        simp only [hb,HashMap.index,hcount,if_false,Except.bind,makeUnique,Bool.false_eq_true,
          UniquePtr.destruct,destruct,Except.ok.injEq,Prod.mk.injEq] at h
        exact Or.inl ⟨Or.inr ⟨rfl,hcount⟩,h.1.symm,h.2.symm⟩
      | true =>
        have hne : array≠s.memory.slab.next := Nat.ne_of_lt (hi.sane.lt ha)
        have hfilled : ((s.memory.slab.construct (.node default default)).write
            s.memory.slab.next (.node key value)).object array=some (.buckets lists) := by
          rw [Slab.write_object,if_neg hne,Slab.construct_object,if_neg hne,ha]
        simp only [hb,HashMap.index,hcount,if_false,Except.bind,makeUnique,if_true,
          UniquePtr.release,addTail,hfilled] at h
        cases hbucket : lists[hasher key % s.map.bucketCount]? with
        | none => simp only [hbucket,Except.map,reduceCtorEq] at h
        | some bucket =>
          simp only [hbucket,Except.map,UniquePtr.destruct,destruct,Except.ok.injEq,
            Prod.mk.injEq] at h
          exact Or.inr ⟨rfl,array,lists,bucket,rfl,ha,hcount,hbucket,h.1.symm,h.2.symm⟩

/-- An insert without a node leaves the state; any other keeps the memory
intact and every node, and adds one. -/
theorem Intact.step_cases (hi : Intact s) {c : Insert Key Value} (h : step hasher s c=some t) :
    (Refused s c ∧ t=s) ∨ (¬Refused s c ∧ Intact t ∧ HasNode t) := by
  unfold step at h
  cases hr : s.map.insert hasher c.key c.value c.allocated s.memory with
  | error f => simp only [hr,reduceCtorEq] at h
  | ok r =>
    simp only [hr,Option.some.injEq] at h
    subst h
    rcases hi.insert_cases hr with ⟨hwhy,_,hm⟩ |
      ⟨halloc,array,lists,bucket,hb,ha,_,_,_,hm⟩
    · refine Or.inl ⟨hwhy.imp_right And.left,?_⟩
      rw [hm]
    · have hlt := hi.sane.lt ha
      have hobject := linked_object s.memory.slab array lists
        (hasher c.key % s.map.bucketCount) bucket c.key c.value
      rw [hm]
      refine Or.inr ⟨?_,⟨?_,?_,?_,?_⟩,s.memory.slab.next,c.key,c.value,?_⟩
      · rintro (hnone | hfalse)
        · rw [hb] at hnone
          cases hnone
        · rw [halloc] at hfalse
          cases hfalse
      · have hnew := hi.sane.construct (Block.node (default : Key) (default : Value))
        exact (hnew.write (Nat.lt_succ_self _) _).write (Nat.lt_succ_of_lt hlt) _
      · intro p hp
        obtain rfl : array=p := Option.some.inj (hb.symm.trans hp)
        exact ⟨_,(hobject array).trans (if_pos rfl)⟩
      · intro p found hp
        by_cases he : p=array
        · rw [he]
          exact hb
        · have hold := (hobject p).symm.trans hp
          rw [if_neg he] at hold
          split at hold
          · cases hold
          · exact hi.only p found hold
      · exact hi.kept
      · refine (hobject _).trans ?_
        rw [if_neg (Nat.ne_of_gt hlt),if_pos rfl]

/-- Inserts keep the nodes that are there. -/
theorem Intact.step_hasNode (hi : Intact s) (hn : HasNode s) {c : Insert Key Value}
    (h : step hasher s c=some t) : Intact t ∧ HasNode t := by
  rcases hi.step_cases h with ⟨_,rfl⟩ | ⟨_,ht,hnode⟩
  · exact ⟨hi,hn⟩
  · exact ⟨ht,hnode⟩

/-- An insert in memory does what it does on the represented lists of nodes. -/
theorem Represents.insert {m : HashBuckets.HashMap Key Value} (hr : Represents s m)
    (hi : Intact s) {key : Key} {value : Value} {allocated : Bool} {e : Error}
    {memory : Memory Key Value}
    (h : s.map.insert hasher key value allocated s.memory=.ok (e,memory)) :
    ∃ m',m.insert hasher key value (if allocated=true then some s.memory.slab.next else none)=
      .ok (e,m') ∧ Represents ⟨s.map,memory⟩ m' := by
  unfold HashBuckets.HashMap.insert HashBuckets.HashMap.index
  rw [hr.count]
  rcases hi.insert_cases h with ⟨hwhy,rfl,rfl⟩ |
    ⟨rfl,array,lists,bucket,hb,ha,hcount,hbucket,rfl,rfl⟩
  · refine ⟨m,?_,hr⟩
    cases hm : m.buckets with
    | none => rfl
    | some buckets =>
      rcases hwhy with hnone | ⟨rfl,hcount⟩
      · rw [hr.absent hnone] at hm
        cases hm
      · simp only [if_neg hcount,Except.bind,Bool.false_eq_true,if_false]
  · obtain ⟨buckets,hm,hlists,hnodes⟩ := hr.present array hb
    rw [ha] at hlists
    obtain rfl := Block.buckets.inj (Option.some.inj hlists)
    rw [List.getElem?_map] at hbucket
    obtain ⟨nodes,hat,rfl⟩ := Option.map_eq_some_iff.mp hbucket
    refine ⟨⟨some (buckets.set (hasher key % s.map.bucketCount)
      (nodes++[⟨s.memory.slab.next,key,value⟩])),s.map.bucketCount⟩,?_,?_⟩
    · simp only [hm,if_neg hcount,Except.bind,if_true,hat]
    · have hobject := linked_object s.memory.slab array
        (buckets.map (fun b => b.map HashBuckets.Node.addr)) (hasher key % s.map.bucketCount)
        (nodes.map HashBuckets.Node.addr) key value
      refine ⟨rfl,?_,?_⟩
      · intro hnone
        rw [hb] at hnone
        cases hnone
      · intro p hp
        obtain rfl : array=p := Option.some.inj (hb.symm.trans hp)
        refine ⟨_,rfl,?_,?_⟩
        · refine (hobject array).trans ?_
          rw [if_pos rfl,List.map_set,List.map_append,List.map_cons,List.map_nil]
        · have hold : ∀ b∈buckets,∀ n∈b,
              (linked s.memory.slab array (buckets.map (fun b => b.map HashBuckets.Node.addr))
                (hasher key % s.map.bucketCount) (nodes.map HashBuckets.Node.addr) key
                value).object n.addr=some (.node n.key n.value) := by
            intro b hb' n hn
            have hnode := hnodes b hb' n hn
            have hother : n.addr≠array := by
              intro he
              rw [he,ha] at hnode
              cases hnode
            rw [hobject,if_neg hother,if_neg (Nat.ne_of_lt (hi.sane.lt hnode)),hnode]
          intro b hb' n hn
          rcases List.mem_or_eq_of_mem_set hb' with hb' | rfl
          · exact hold b hb' n hn
          · rcases List.mem_append.mp hn with hn | hn
            · exact hold nodes (List.mem_of_getElem? hat) n hn
            · obtain rfl := List.mem_singleton.mp hn
              refine (hobject _).trans ?_
              rw [if_neg (Nat.ne_of_gt (hi.sane.lt ha)),if_pos rfl]

/-- Destroying a map frees and destroys everything exactly once if and only
if none of its inserts got a node. -/
theorem released_iff_refused (hasher : Key → ℕ) (bucketCount : ℕ) (allocated : Bool)
    (inserts : List (Insert Key Value))
    (h : run (step hasher) (start bucketCount allocated) inserts=some t) :
    Released (t.map.destruct t.memory) ↔
      Guarded (step hasher) Refused (start bucketCount allocated) inserts := by
  refine end_iff_guarded (I := fun s => Intact s ∧ ¬HasNode s)
    (B := fun s => Intact s ∧ HasNode s) (F := fun _ => True)
    (Q := fun s => Released (s.map.destruct s.memory)) ?_ ?_ ?_ ?_ ?_
    ⟨start_intact bucketCount allocated,start_no_node bucketCount allocated⟩ h trivial
  · intro s a u hs hg hstep
    rcases hs.1.step_cases hstep with ⟨_,rfl⟩ | ⟨hnot,_⟩
    · exact hs
    · exact absurd hg hnot
  · intro s a u hs hg hstep
    rcases hs.1.step_cases hstep with ⟨hwhy,_⟩ | ⟨_,hu⟩
    · exact absurd hwhy hg
    · exact hu
  · intro s a u hs hstep
    exact hs.1.step_hasNode hs.2 hstep
  · exact fun hs _ => hs.1.released_iff.mpr hs.2
  · exact fun hs _ hr => hs.1.released_iff.mp hr hs.2

/-- One insert without memory for its node. -/
theorem released_iff_refused_failing :
    ∃ t,run (step (fun k : ℕ => k)) (start 2 true) [⟨7,1,false⟩]=some t ∧
      (Released (t.map.destruct t.memory) ↔
        Guarded (step (fun k : ℕ => k)) Refused (start 2 true)
          [(⟨7,1,false⟩ : Insert ℕ ℕ)]) :=
  ⟨_,rfl,released_iff_refused (fun k => k) 2 true [⟨7,1,false⟩] rfl⟩

/-- One insert: its node outlives the map, and key and value with it. -/
theorem node_outlives_map :
    ∃ t,run (step (fun k : ℕ => k)) (start 1 true) [(⟨7,1,true⟩ : Insert ℕ ℕ)]=some t ∧
      t.memory.slab.object 1=some (.node 7 1) ∧
      (t.map.destruct t.memory).slab.frees 0=1 ∧ (t.map.destruct t.memory).slab.frees 1=0 ∧
      (t.map.destruct t.memory).keyEnds 1=0 ∧ (t.map.destruct t.memory).valueEnds 1=0 ∧
      ¬Released (t.map.destruct t.memory) := by
  refine ⟨_,rfl,rfl,rfl,rfl,rfl,rfl,?_⟩
  intro hr
  exact absurd (hr.nodes 1 7 1 rfl).1 (by decide)

end Kpp.HashMapMemory
