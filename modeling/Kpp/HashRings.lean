import Kpp.HashBuckets
import Kpp.IntrusiveLists

/-!
# HashMap over rings of list cells

The bucket array is a row of `List` heads, and a node is linked into the ring
of its bucket by the list cell at its start. All maps share one heap. The maps
whose buckets are sequences of nodes serve as reference: the calls of any run
answer as theirs do. The allocator hands out addresses that it never handed
out before; a freed array is not used again.
-/

namespace Kpp.HashRings

open HashBuckets (Error Fault Node enomem)
open IntrusiveLists PointerRings

variable {Key Value : Type*}

/-- The heap of list cells and nodes. -/
structure Heap (Key Value : Type*) where
  /-- Pointers of the list cells. -/
  links : Links ℕ
  /-- Key and value behind a list cell, where it is that of a node. -/
  fields : ℕ → Option (Key×Value)
  /-- The next address that was never handed out. -/
  next : ℕ

/-- `HashMap`. -/
structure HashMap where
  /-- `buckets_`, the address of the first head. -/
  buckets : Option ℕ
  /-- `bucket_count_`. -/
  bucketCount : ℕ

/-- `&node->list_node`; the cell is the first member of the node. -/
def listNode (node : ℕ) : ℕ := node

/-- `container_of(cell, Node, list_node)`. -/
def containerOf (cell : ℕ) : ℕ := cell

/-- The constructors of the first heads of an array. -/
def constructHeads (array : ℕ) : ℕ → Links ℕ → Links ℕ
  | 0,links => links
  | n+1,links => initListHead (array+n) (constructHeads array n links)

/-- `HashMap(bucket_count)`, with the outcome of the array's allocation. -/
def HashMap.create (bucketCount : ℕ) (allocated : Bool) (heap : Heap Key Value) :
    HashMap×Heap Key Value :=
  if allocated=true then
    (⟨some heap.next,bucketCount⟩,
      ⟨constructHeads heap.next bucketCount heap.links,heap.fields,heap.next+bucketCount⟩)
  else (⟨none,bucketCount⟩,heap)

/-- What the implicit moves do with the source: the new map and the source. -/
def HashMap.moveFrom (other : HashMap) : HashMap×HashMap := (other,⟨none,other.bucketCount⟩)

/-- `&buckets_[hasher_(key) % bucket_count_]`. -/
def HashMap.bucket (this : HashMap) (hasher : Key → ℕ) (array : ℕ) (key : Key) : Except Fault ℕ :=
  if this.bucketCount=0 then .error .divideByZero
  else .ok (array+hasher key % this.bucketCount)

/-- `make_unique<Node>`, the writes to its fields and `add_tail` of its cell. -/
def Heap.withNode (heap : Heap Key Value) (bucket : ℕ) (key : Key) (value : Value) :
    Heap Key Value :=
  let node := heap.next
  ⟨listAddTail (listNode node) bucket heap.links,
    Function.update heap.fields node (some (key,value)),node+1⟩

/-- `insert`, with the outcome of the node's allocation. -/
def HashMap.insert (this : HashMap) (hasher : Key → ℕ) (key : Key) (value : Value)
    (allocated : Bool) (heap : Heap Key Value) : Except Fault (Error×Heap Key Value) :=
  match this.buckets with
  | none => .ok (⟨enomem⟩,heap)
  | some array =>
    (this.bucket hasher array key).bind (fun bucket =>
      if allocated=true then .ok (⟨0⟩,heap.withNode bucket key value)
      else .ok (⟨enomem⟩,heap))

section Find
variable [BEq Key]

/-- The loop of `find`; `none` while it has not come to its end, or when a cell
is not that of a node. -/
def search (heap : Heap Key Value) (key : Key) :
    ℕ → Iterator ℕ → Iterator ℕ → Option (Option ℕ)
  | 0,_,_ => none
  | fuel+1,it,stop =>
    if it.ne stop=true then
      let current := containerOf it.deref
      (heap.fields current).bind (fun fields =>
        if (fields.1==key)=true then some (some current)
        else search heap key fuel (it.increment heap.links) stop)
    else some none

/-- `find`: the node whose value the returned pointer is on. -/
def HashMap.find (this : HashMap) (hasher : Key → ℕ) (key : Key) (fuel : ℕ)
    (heap : Heap Key Value) : Option (Except Fault (Option ℕ)) :=
  match this.buckets with
  | none => some (.ok none)
  | some array =>
    match this.bucket hasher array key with
    | .error fault => some (.error fault)
    | .ok bucket =>
      (search heap key fuel (listBegin heap.links bucket) (listEnd bucket)).map Except.ok

end Find

/-- Calls on the maps in storage cells. -/
inductive Action (H Key Value : Type*) where
  | construct (h : H) (bucketCount : ℕ) (allocated : Bool)
  | moveConstruct (dst src : H)
  | moveAssign (dst src : H)
  | destruct (h : H)
  | insert (h : H) (key : Key) (value : Value) (allocated : Bool)
  | find (h : H) (key : Key)

/-- What a call comes back with. -/
inductive Answer where
  /-- A constructor, a move or the destructor returned. -/
  | done
  /-- Result of `insert`. -/
  | inserted (result : Except Fault Error)
  /-- Result of `find`. -/
  | found (result : Except Fault (Option ℕ))
  /-- The cells are not as the call needs them. -/
  | refused
  /-- The call did not come to its end. -/
  | stuck

/-- All maps over their heap. -/
structure World (H Key Value : Type*) where
  /-- The heap. -/
  heap : Heap Key Value
  /-- Map in each cell; `none` is raw storage. -/
  maps : H → Option HashMap

/-- Maps with sequences of nodes as buckets. -/
structure Reference (H Key Value : Type*) where
  /-- Map in each cell. -/
  maps : H → Option (HashBuckets.HashMap Key Value)
  /-- The next address that was never handed out. -/
  next : ℕ

section Calls
variable {H : Type*} [DecidableEq H]

/-- The cells after a move: destination and source as the move left them. -/
def moved {M : Type*} (maps : H → Option M) (dst src : H) (both : M×M) : H → Option M :=
  Function.update (Function.update maps src (some both.2)) dst (some both.1)

variable [BEq Key]

/-- One call on the heap. -/
def World.serve (fuel : ℕ) (hasher : Key → ℕ) (w : World H Key Value) :
    Action H Key Value → World H Key Value×Answer
  | .construct h bucketCount allocated =>
    match w.maps h with
    | some _ => (w,.refused)
    | none =>
      let (this,heap) := HashMap.create bucketCount allocated w.heap
      (⟨heap,Function.update w.maps h (some this)⟩,.done)
  | .moveConstruct dst src =>
    match w.maps dst,w.maps src with
    | none,some other =>
      (⟨w.heap,moved w.maps dst src other.moveFrom⟩,.done)
    | _,_ => (w,.refused)
  | .moveAssign dst src =>
    match w.maps dst,w.maps src with
    | some _,some other =>
      if dst=src then (w,.done) else (⟨w.heap,moved w.maps dst src other.moveFrom⟩,.done)
    | _,_ => (w,.refused)
  | .destruct h =>
    match w.maps h with
    | none => (w,.refused)
    | some _ => (⟨w.heap,Function.update w.maps h none⟩,.done)
  | .insert h key value allocated =>
    match w.maps h with
    | none => (w,.refused)
    | some this =>
      match this.insert hasher key value allocated w.heap with
      | .error fault => (w,.inserted (.error fault))
      | .ok (error,heap) => (⟨heap,w.maps⟩,.inserted (.ok error))
  | .find h key =>
    match w.maps h with
    | none => (w,.refused)
    | some this => (w,((this.find hasher key fuel w.heap).map Answer.found).getD .stuck)

/-- Answers of calls one after another. -/
def World.answers (fuel : ℕ) (hasher : Key → ℕ) :
    World H Key Value → List (Action H Key Value) → List Answer
  | _,[] => []
  | w,a::actions =>
    (w.serve fuel hasher a).2::World.answers fuel hasher (w.serve fuel hasher a).1 actions

/-- One call on the reference. -/
def Reference.serve (hasher : Key → ℕ) (r : Reference H Key Value) :
    Action H Key Value → Reference H Key Value×Answer
  | .construct h bucketCount allocated =>
    match r.maps h with
    | some _ => (r,.refused)
    | none =>
      (⟨Function.update r.maps h (some (HashBuckets.HashMap.create bucketCount allocated)),
        if allocated=true then r.next+bucketCount else r.next⟩,.done)
  | .moveConstruct dst src =>
    match r.maps dst,r.maps src with
    | none,some other =>
      (⟨moved r.maps dst src (other,{other with buckets := none}),r.next⟩,.done)
    | _,_ => (r,.refused)
  | .moveAssign dst src =>
    match r.maps dst,r.maps src with
    | some _,some other =>
      if dst=src then (r,.done)
      else (⟨moved r.maps dst src (other,{other with buckets := none}),r.next⟩,.done)
    | _,_ => (r,.refused)
  | .destruct h =>
    match r.maps h with
    | none => (r,.refused)
    | some _ => (⟨Function.update r.maps h none,r.next⟩,.done)
  | .insert h key value allocated =>
    match r.maps h with
    | none => (r,.refused)
    | some this =>
      match this.insert hasher key value (if allocated=true then some r.next else none) with
      | .error fault => (r,.inserted (.error fault))
      | .ok (error,this) =>
        (⟨Function.update r.maps h (some this),if error=⟨0⟩ then r.next+1 else r.next⟩,
          .inserted (.ok error))
  | .find h key =>
    match r.maps h with
    | none => (r,.refused)
    | some this =>
      (r,.found ((this.find hasher key).map (fun found => found.map Node.addr)))

/-- Answers of the reference. -/
def Reference.answers (hasher : Key → ℕ) :
    Reference H Key Value → List (Action H Key Value) → List Answer
  | _,[] => []
  | r,a::actions => (r.serve hasher a).2::Reference.answers hasher (r.serve hasher a).1 actions

end Calls

/-- A map in the heap has the buckets of the reference's map: each ring has the
nodes of its bucket in order. -/
structure Represents (heap : Heap Key Value) (lists : List (Entry ℕ)) (this : HashMap)
    (m : HashBuckets.HashMap Key Value) : Prop where
  /-- The counts agree. -/
  count : m.bucketCount=this.bucketCount
  /-- Either both have an array or none has. -/
  absent : this.buckets=none ↔ m.buckets=none
  /-- The array has one list for each bucket. -/
  length : ∀ array buckets,this.buckets=some array → m.buckets=some buckets →
    buckets.length=this.bucketCount ∧ array+this.bucketCount≤heap.next
  /-- The list of a bucket has its nodes. -/
  nodes : ∀ array buckets,this.buckets=some array → m.buckets=some buckets →
    ∀ i bucket,buckets[i]?=some bucket → (array+i,bucket.map Node.addr)∈lists ∧
      ∀ n∈bucket,heap.fields n.addr=some (n.key,n.value)

/-- The lists with one more node at the end of a bucket. -/
def withLast (lists : List (Entry ℕ)) (bucket node : ℕ) : List (Entry ℕ) :=
  lists.map (fun d => if d.1=bucket then (d.1,d.2++[node]) else d)

/-- Two maps have no head in common. -/
def Apart (this other : HashMap) : Prop :=
  ∀ array array',this.buckets=some array → other.buckets=some array' →
    array+this.bucketCount≤array' ∨ array'+other.bucketCount≤array

/-- The heap has all maps of the reference, in rings of cells that were handed
out, none with more than so many nodes. -/
structure Linked {H : Type*} (w : World H Key Value) (r : Reference H Key Value)
    (lists : List (Entry ℕ)) (bound : ℕ) : Prop where
  /-- Both hand out the same address next. -/
  next : w.heap.next=r.next
  /-- The lists are rings. -/
  rings : Rings ⟨w.heap.links,lists⟩
  /-- Their cells were handed out. -/
  below : ∀ e∈lists,∀ p∈ring e,p<w.heap.next
  /-- No list is too long. -/
  short : ∀ e∈lists,e.2.length≤bound
  /-- Each map is as in the reference. -/
  maps : ∀ h,Option.Rel (Represents w.heap lists) (w.maps h) (r.maps h)
  /-- Different maps have different arrays. -/
  apart : ∀ g h this other,g≠h → w.maps g=some this → w.maps h=some other → Apart this other

section Loops
variable [BEq Key] {heap : Heap Key Value}

/-- The loop of `find` along a segment stops at the first node with the key. -/
theorem search_segment (key : Key) {a stop : ℕ} {nodes : List (Node Key Value)} {fuel : ℕ}
    (h : Segment heap.links a (nodes.map Node.addr) stop) (hstop : stop∉nodes.map Node.addr)
    (hfields : ∀ n∈nodes,heap.fields n.addr=some (n.key,n.value)) (hfuel : nodes.length<fuel) :
    search heap key fuel ⟨heap.links.next a⟩ ⟨stop⟩=
      some ((nodes.find? (fun n => n.key==key)).map Node.addr) := by
  induction nodes generalizing a fuel with
  | nil =>
    obtain ⟨fuel,rfl⟩ : ∃ n,fuel=n+1 := Nat.exists_eq_add_one.mpr hfuel
    have hsame : (Iterator.ne ⟨heap.links.next a⟩ ⟨stop⟩)=false := decide_eq_false (not_not.mpr h.1)
    simp only [search,hsame,Bool.false_eq_true,if_false,List.find?_nil,Option.map_none]
  | cons n nodes ih =>
    obtain ⟨fuel,rfl⟩ : ∃ k,fuel=k+1 := Nat.exists_eq_add_one.mpr (Nat.zero_lt_of_lt hfuel)
    rw [List.map_cons] at h hstop
    have hn : n.addr≠stop := fun he => hstop (he ▸ List.mem_cons_self)
    have hmore : (Iterator.ne ⟨n.addr⟩ ⟨stop⟩)=true := decide_eq_true hn
    have hhere := hfields n List.mem_cons_self
    have hrest := ih h.2 (fun hm => hstop (List.mem_cons_of_mem _ hm))
      (fun k hk => hfields k (List.mem_cons_of_mem n hk)) (Nat.lt_of_succ_lt_succ hfuel)
    rw [h.1.1,List.find?_cons]
    simp only [search,hmore,if_true,Iterator.deref,containerOf,hhere,Option.bind_some]
    cases hk : n.key==key with
    | true => simp only [if_true,Option.map_some]
    | false => simpa only [Bool.false_eq_true,if_false,Iterator.increment] using hrest

/-- The heads of a new array are empty lists of their own. -/
theorem rings_constructHeads {links : Links ℕ} {lists : List (Entry ℕ)} {array : ℕ}
    (hs : Rings ⟨links,lists⟩) (hbelow : ∀ e∈lists,∀ p∈ring e,p<array) (n : ℕ) :
    Rings ⟨constructHeads array n links,lists++(List.range n).map (fun i => (array+i,[]))⟩ := by
  induction n with
  | zero => simpa [constructHeads] using hs
  | succ n ih =>
    have hfree : State.Free ⟨constructHeads array n links,
        lists++(List.range n).map (fun i => (array+i,[]))⟩ (array+n) := by
      intro e he hp
      rcases List.mem_append.mp he with hold | hnew
      · have hlt := hbelow e hold _ hp
        omega
      · obtain ⟨i,hi,rfl⟩ := List.mem_map.mp hnew
        have hi := List.mem_range.mp hi
        have hsame := List.mem_singleton.mp hp
        omega
    have hmore := ih.construct hfree
    rw [List.range_succ,List.map_append,←List.append_assoc]
    exact hmore

end Loops

section Frames
variable {heap heap' : Heap Key Value} {lists lists' : List (Entry ℕ)} {this other : HashMap}
  {m : HashBuckets.HashMap Key Value} {array : ℕ}

/-- The array of a map was handed out. -/
theorem Represents.handedOut (hr : Represents heap lists this m)
    (harray : this.buckets=some array) :
    ∃ buckets,m.buckets=some buckets ∧ buckets.length=this.bucketCount ∧
      array+this.bucketCount≤heap.next := by
  have hne : m.buckets≠none := by
    intro hnone
    rw [hr.absent.mpr hnone] at harray
    exact Option.some_ne_none array harray.symm
  obtain ⟨buckets,hbuckets⟩ := Option.ne_none_iff_exists'.mp hne
  exact ⟨buckets,hbuckets,hr.length array buckets harray hbuckets⟩

/-- A map keeps its buckets while its lists and its nodes are left as they are. -/
theorem Represents.frame (hr : Represents heap lists this m) (hnext : heap.next≤heap'.next)
    (hfields : ∀ e∈lists,∀ p∈e.2,heap'.fields p=heap.fields p)
    (hlists : ∀ array,this.buckets=some array → ∀ i,i<this.bucketCount →
      ∀ nodes,(array+i,nodes)∈lists → (array+i,nodes)∈lists') :
    Represents heap' lists' this m := by
  refine ⟨hr.count,hr.absent,?_,?_⟩
  · intro array buckets harray hbuckets
    have hold := hr.length array buckets harray hbuckets
    exact ⟨hold.1,Nat.le_trans hold.2 hnext⟩
  · intro array buckets harray hbuckets i bucket hi
    have hold := hr.nodes array buckets harray hbuckets i bucket hi
    have hlt : i<this.bucketCount :=
      (hr.length array buckets harray hbuckets).1 ▸ (List.getElem?_eq_some_iff.mp hi).1
    refine ⟨hlists array harray i hlt _ hold.1,?_⟩
    intro n hn
    rw [hfields _ hold.1 n.addr (List.mem_map_of_mem hn)]
    exact hold.2 n hn

/-- A map without an array is any map without buckets and with its count. -/
theorem represents_none {count : ℕ} : Represents heap lists ⟨none,count⟩ ⟨none,count⟩ :=
  ⟨rfl,⟨fun _ => rfl,fun _ => rfl⟩,nofun,nofun⟩

/-- Maps are apart from each other both ways. -/
theorem Apart.symm (h : Apart this other) : Apart other this :=
  fun array array' harray harray' => (h array' array harray' harray).symm

/-- A map without an array is apart from all. -/
theorem apart_none (h : this.buckets=none) : Apart this other := by
  intro array array' harray
  rw [h] at harray
  exact absurd harray.symm (Option.some_ne_none array)

/-- A new node keeps the fields of those handed out before. -/
theorem withNode_fields (hbelow : ∀ e∈lists,∀ p∈ring e,p<heap.next) (bucket : ℕ) (key : Key)
    (value : Value) :
    ∀ e∈lists,∀ p∈e.2,(heap.withNode bucket key value).fields p=heap.fields p := by
  intro e he p hp
  have hold := hbelow e he p (List.mem_cons_of_mem e.1 hp)
  exact Function.update_of_ne (Nat.ne_of_lt hold) _ _

/-- A list with another head gets no node. -/
theorem mem_withLast {bucket node : ℕ} {e : Entry ℕ} (he : e∈lists) (hne : e.1≠bucket) :
    e∈withLast lists bucket node :=
  List.mem_map.mpr ⟨e,he,if_neg hne⟩

/-- The map that gets a node has it at the end of its bucket. -/
theorem Represents.insert (hr : Represents heap lists this m)
    (hbelow : ∀ e∈lists,∀ p∈ring e,p<heap.next) {i : ℕ}
    {buckets : List (List (Node Key Value))} {bucket : List (Node Key Value)}
    (harray : this.buckets=some array) (hbuckets : m.buckets=some buckets)
    (hi : buckets[i]?=some bucket) (key : Key) (value : Value) :
    Represents (heap.withNode (array+i) key value) (withLast lists (array+i) heap.next) this
      {m with buckets := some (buckets.set i (bucket++[⟨heap.next,key,value⟩]))} := by
  have hfields := withNode_fields hbelow (array+i) key value
  refine ⟨hr.count,?_,?_,?_⟩
  · rw [harray]
    exact iff_of_false nofun nofun
  · intro array' buckets' harray' hbuckets'
    obtain rfl := Option.some.inj (harray.symm.trans harray')
    obtain rfl := Option.some.inj hbuckets'
    have hlength := hr.length array buckets harray hbuckets
    rw [List.length_set]
    exact ⟨hlength.1,Nat.le_succ_of_le hlength.2⟩
  · intro array' buckets' harray' hbuckets' k bucket' hk
    obtain rfl := Option.some.inj (harray.symm.trans harray')
    obtain rfl := Option.some.inj hbuckets'
    by_cases hki : i=k
    · subst hki
      have hold := hr.nodes array buckets harray hbuckets i bucket hi
      rw [List.getElem?_set_self (List.getElem?_eq_some_iff.mp hi).1] at hk
      obtain rfl := Option.some.inj hk
      rw [List.map_append,List.map_singleton]
      refine ⟨List.mem_map.mpr ⟨_,hold.1,if_pos rfl⟩,?_⟩
      intro n hn
      rcases List.mem_append.mp hn with hbefore | hnew
      · rw [hfields _ hold.1 n.addr (List.mem_map_of_mem hbefore)]
        exact hold.2 n hbefore
      · obtain rfl := List.mem_singleton.mp hnew
        exact Function.update_self _ _ _
    · rw [List.getElem?_set_ne hki] at hk
      have hold := hr.nodes array buckets harray hbuckets k bucket' hk
      refine ⟨mem_withLast hold.1 (fun he => hki (Nat.add_left_cancel he).symm),?_⟩
      intro n hn
      rw [hfields _ hold.1 n.addr (List.mem_map_of_mem hn)]
      exact hold.2 n hn

end Frames

section Steps
variable {heap : Heap Key Value} {H : Type*} {w : World H Key Value} {r : Reference H Key Value}
  {lists : List (Entry ℕ)} {bound : ℕ} {this other : HashMap} {m : HashBuckets.HashMap Key Value}

/-- A cell is either raw in both or has a map in both. -/
theorem Linked.cases (hl : Linked w r lists bound) (h : H) :
    (w.maps h=none ∧ r.maps h=none) ∨
      ∃ this m,w.maps h=some this ∧ r.maps h=some m ∧ Represents w.heap lists this m := by
  have hrel := hl.maps h
  cases hw : w.maps h with
  | none =>
    rw [hw] at hrel
    cases hr : r.maps h with
    | none => exact Or.inl ⟨rfl,rfl⟩
    | some m => exact absurd (hr ▸ hrel) nofun
  | some this =>
    rw [hw] at hrel
    cases hr : r.maps h with
    | none => exact absurd (hr ▸ hrel) nofun
    | some m =>
      rw [hr] at hrel
      cases hrel with
      | some hmap => exact Or.inr ⟨this,m,rfl,rfl,hmap⟩

/-- A higher bound is one too. -/
theorem Linked.more (hl : Linked w r lists bound) : Linked w r lists (bound+1) :=
  {hl with short := fun e he => Nat.le_succ_of_le (hl.short e he)}

/-- What `insert` and `find` do with the index of the reference's bucket. -/
theorem Represents.index (hrep : Represents heap lists this m) {array : ℕ}
    {buckets : List (List (Node Key Value))} (harray : this.buckets=some array)
    (hbuckets : m.buckets=some buckets) (hasher : Key → ℕ) (key : Key) :
    (this.bucket hasher array key=.error .divideByZero ∧
      m.index hasher key=.error .divideByZero) ∨
    ∃ bucket,this.bucket hasher array key=.ok (array+hasher key % this.bucketCount) ∧
      m.index hasher key=.ok (hasher key % this.bucketCount) ∧
      buckets[hasher key % this.bucketCount]?=some bucket := by
  have hlength := (hrep.length array buckets harray hbuckets).1
  unfold HashMap.bucket HashBuckets.HashMap.index
  rw [hrep.count]
  by_cases hzero : this.bucketCount=0
  · exact Or.inl ⟨if_pos hzero,if_pos hzero⟩
  · have hlt : hasher key % this.bucketCount<buckets.length := by
      rw [hlength]
      exact Nat.mod_lt (hasher key) (Nat.pos_of_ne_zero hzero)
    exact Or.inr ⟨_,if_neg hzero,if_neg hzero,List.getElem?_eq_getElem hlt⟩

/-- `find` goes along the ring of the bucket and stops where the reference's
search does. -/
theorem Linked.find_eq [BEq Key] (hl : Linked w r lists bound)
    (hrep : Represents w.heap lists this m)
    {fuel : ℕ} (hfuel : bound<fuel) (hasher : Key → ℕ) (key : Key) :
    this.find hasher key fuel w.heap=
      some ((m.find hasher key).map (fun found => found.map Node.addr)) := by
  unfold HashMap.find HashBuckets.HashMap.find
  cases harray : this.buckets with
  | none =>
    rw [hrep.absent.mp harray]
    rfl
  | some array =>
    obtain ⟨buckets,hbuckets,-⟩ := hrep.handedOut harray
    rw [hbuckets]
    dsimp only
    rcases hrep.index harray hbuckets hasher key with ⟨hthis,hm⟩ | ⟨bucket,hthis,hm,hbucket⟩
    · rw [hthis,hm]
      rfl
    · have hold := hrep.nodes array buckets harray hbuckets _ bucket hbucket
      have hcircle := hl.rings.circle _ hold.1
      have hdistinct := (List.nodup_flatMap.mp hl.rings.nodup).1 _ hold.1
      have hshort := hl.short _ hold.1
      rw [List.length_map] at hshort
      have hsearch := search_segment key hcircle (List.nodup_cons.mp hdistinct).1 hold.2
        (Nat.lt_of_le_of_lt hshort hfuel)
      rw [hthis,hm]
      simp only [listBegin,listEnd,hsearch,Except.bind,hbucket,Option.map_some,Except.map]

variable [DecidableEq H]

/-- A map in one cell is replaced by one with rings of its own. -/
theorem Linked.set (hl : Linked w r lists bound) (h : H) (hr : Represents w.heap lists this m)
    (hapart : ∀ g other,g≠h → w.maps g=some other → Apart this other) :
    Linked ⟨w.heap,Function.update w.maps h (some this)⟩
      ⟨Function.update r.maps h (some m),r.next⟩ lists bound := by
  refine ⟨hl.next,hl.rings,hl.below,hl.short,?_,?_⟩
  · intro g
    by_cases hg : g=h
    · subst hg
      simp only [Function.update_self]
      exact Option.Rel.some hr
    · simp only [Function.update_of_ne hg]
      exact hl.maps g
  · intro g k first second hgk hfirst hsecond
    dsimp only at hfirst hsecond
    by_cases hg : g=h
    · subst hg
      rw [Function.update_self,Option.some_inj] at hfirst
      rw [Function.update_of_ne hgk.symm] at hsecond
      exact hfirst ▸ hapart k second hgk.symm hsecond
    · rw [Function.update_of_ne hg] at hfirst
      by_cases hk : k=h
      · subst hk
        rw [Function.update_self,Option.some_inj] at hsecond
        exact (hsecond ▸ hapart g first hg hfirst).symm
      · rw [Function.update_of_ne hk] at hsecond
        exact hl.apart g k first second hgk hfirst hsecond

/-- A map in one cell ends. -/
theorem Linked.drop (hl : Linked w r lists bound) (h : H) :
    Linked ⟨w.heap,Function.update w.maps h none⟩ ⟨Function.update r.maps h none,r.next⟩
      lists bound := by
  refine ⟨hl.next,hl.rings,hl.below,hl.short,?_,?_⟩
  · intro g
    by_cases hg : g=h
    · subst hg
      simp only [Function.update_self]
      exact Option.Rel.none
    · simp only [Function.update_of_ne hg]
      exact hl.maps g
  · intro g k first second hgk hfirst hsecond
    dsimp only at hfirst hsecond
    have hkeep : ∀ d v,Function.update w.maps h none d=some v → w.maps d=some v := by
      intro d v hv
      by_cases hd : d=h
      · subst hd
        rw [Function.update_self] at hv
        exact absurd hv.symm (Option.some_ne_none v)
      · rwa [Function.update_of_ne hd] at hv
    exact hl.apart g k first second hgk (hkeep g first hfirst) (hkeep k second hsecond)

/-- A move hands the rings of one cell to another. -/
theorem Linked.move (hl : Linked w r lists bound) {dst src : H} (hne : dst≠src)
    (hw : w.maps src=some other) (hr : r.maps src=some m) (hrep : Represents w.heap lists other m) :
    Linked ⟨w.heap,moved w.maps dst src other.moveFrom⟩
      ⟨moved r.maps dst src (m,{m with buckets := none}),r.next⟩ lists bound := by
  have hcount : m.bucketCount=other.bucketCount := hrep.count
  have hleft : Linked ⟨w.heap,Function.update w.maps src (some ⟨none,other.bucketCount⟩)⟩
      ⟨Function.update r.maps src (some {m with buckets := none}),r.next⟩ lists bound := by
    refine hl.set src ?_ (fun _ _ _ _ => apart_none rfl)
    rw [hcount]
    exact represents_none
  refine hleft.set dst hrep ?_
  intro g third hg hthird
  dsimp only at hthird
  by_cases hsrc : g=src
  · subst hsrc
    rw [Function.update_self,Option.some_inj] at hthird
    exact (apart_none (by rw [←hthird])).symm
  · rw [Function.update_of_ne hsrc] at hthird
    exact hl.apart src g other third (Ne.symm hsrc) hw hthird

/-- A constructor makes a map with empty rings in fresh cells, or one without
an array. -/
theorem Linked.construct (hl : Linked w r lists bound) (h : H) (bucketCount : ℕ) :
    ∀ allocated,∃ lists',Linked
      ⟨(HashMap.create bucketCount allocated w.heap).2,
        Function.update w.maps h (some (HashMap.create bucketCount allocated w.heap).1)⟩
      ⟨Function.update r.maps h (some (HashBuckets.HashMap.create bucketCount allocated)),
        if allocated=true then r.next+bucketCount else r.next⟩ lists' bound
  | false => ⟨lists,hl.set h represents_none (fun _ _ _ _ => apart_none rfl)⟩
  | true => by
    let heads := (List.range bucketCount).map (fun i => (w.heap.next+i,([] : List ℕ)))
    let heap' := (HashMap.create bucketCount true w.heap).2
    have hrings : Rings ⟨heap'.links,lists++heads⟩ :=
      rings_constructHeads hl.rings hl.below bucketCount
    have hgrown : Linked ⟨heap',w.maps⟩ ⟨r.maps,r.next+bucketCount⟩ (lists++heads) bound := by
      refine ⟨congrArg (·+bucketCount) hl.next,hrings,?_,?_,?_,hl.apart⟩
      · intro e he p hp
        show p<w.heap.next+bucketCount
        rcases List.mem_append.mp he with hold | hnew
        · have hlt := hl.below e hold p hp
          omega
        · obtain ⟨i,hi,rfl⟩ := List.mem_map.mp hnew
          have hi := List.mem_range.mp hi
          have hsame := List.mem_singleton.mp hp
          omega
      · intro e he
        rcases List.mem_append.mp he with hold | hnew
        · exact hl.short e hold
        · obtain ⟨i,hi,rfl⟩ := List.mem_map.mp hnew
          exact Nat.zero_le bound
      · intro g
        rcases hl.cases g with ⟨hw,hr⟩ | ⟨this,m,hw,hr,hrep⟩
        · simp only [hw,hr]
          exact Option.Rel.none
        · simp only [hw,hr]
          exact Option.Rel.some (hrep.frame (Nat.le_add_right _ _) (fun _ _ _ _ => rfl)
            (fun _ _ _ _ _ hmem => List.mem_append_left heads hmem))
    have hnew : Represents heap' (lists++heads) ⟨some w.heap.next,bucketCount⟩
        (HashBuckets.HashMap.create bucketCount true) := by
      refine ⟨rfl,iff_of_false nofun nofun,?_,?_⟩
      · intro array buckets harray hbuckets
        obtain rfl := Option.some.inj harray
        obtain rfl := Option.some.inj hbuckets
        exact ⟨List.length_replicate,Nat.le_refl _⟩
      · intro array buckets harray hbuckets i bucket hi
        obtain rfl := Option.some.inj harray
        obtain rfl := Option.some.inj hbuckets
        obtain ⟨hlt,rfl⟩ := List.getElem?_eq_some_iff.mp hi
        rw [List.length_replicate] at hlt
        rw [List.getElem_replicate]
        refine ⟨List.mem_append_right lists ?_,nofun⟩
        exact List.mem_map_of_mem (List.mem_range.mpr hlt)
    refine ⟨lists++heads,hgrown.set h hnew ?_⟩
    intro g other _ hother array array' harray harray'
    obtain rfl := Option.some.inj harray
    rcases hl.cases g with ⟨hw,_⟩ | ⟨this,m,hw,_,hrep⟩
    · exact absurd (hother.symm.trans hw) (Option.some_ne_none other)
    · obtain rfl : other=this := Option.some.inj (hother.symm.trans hw)
      obtain ⟨_,_,_,hbound⟩ := hrep.handedOut harray'
      exact Or.inr hbound

/-- A node linked into the ring of its bucket is the last of that bucket. -/
theorem Linked.insert (hl : Linked w r lists bound) {h : H} (hw : w.maps h=some this)
    (hrm : r.maps h=some m) (hrep : Represents w.heap lists this m) {array i : ℕ}
    {buckets : List (List (Node Key Value))} {bucket : List (Node Key Value)}
    (harray : this.buckets=some array) (hbuckets : m.buckets=some buckets)
    (hi : buckets[i]?=some bucket) (key : Key) (value : Value) :
    Linked ⟨w.heap.withNode (array+i) key value,w.maps⟩
      ⟨Function.update r.maps h
        (some {m with buckets := some (buckets.set i (bucket++[⟨r.next,key,value⟩]))}),r.next+1⟩
      (withLast lists (array+i) w.heap.next) (bound+1) := by
  have hentry := (hrep.nodes array buckets harray hbuckets i bucket hi).1
  have hfresh : State.Free ⟨w.heap.links,lists⟩ w.heap.next :=
    fun e he hp => Nat.lt_irrefl _ (hl.below e he _ hp)
  have hlt : i<this.bucketCount :=
    (hrep.length array buckets harray hbuckets).1 ▸ (List.getElem?_eq_some_iff.mp hi).1
  refine ⟨congrArg (·+1) hl.next,hl.rings.addTail hentry hfresh,?_,?_,?_,hl.apart⟩
  · intro e he p hp
    show p<w.heap.next+1
    obtain ⟨d,hd,rfl⟩ := List.mem_map.mp he
    have hold := hl.below d hd p
    split at hp
    · rw [ring,←List.cons_append,List.mem_append] at hp
      rcases hp with hp | hp
      · have hlt := hold hp
        omega
      · have hsame := List.mem_singleton.mp hp
        omega
    · have hlt := hold hp
      omega
  · intro e he
    obtain ⟨d,hd,rfl⟩ := List.mem_map.mp he
    have hold := hl.short d hd
    split
    · rw [List.length_append,List.length_singleton]
      omega
    · omega
  · intro g
    dsimp only
    by_cases hg : g=h
    · subst hg
      rw [hw,Function.update_self,←hl.next]
      exact Option.Rel.some (hrep.insert hl.below harray hbuckets hi key value)
    · rw [Function.update_of_ne hg]
      rcases hl.cases g with ⟨hwg,hrg⟩ | ⟨other,k,hwg,hrg,hrepg⟩
      · rw [hwg,hrg]
        exact Option.Rel.none
      · rw [hwg,hrg]
        have hkept := withNode_fields hl.below (array+i) key value
        refine Option.Rel.some (hrepg.frame (Nat.le_succ _) hkept ?_)
        intro array' harray' j hj nodes hmem
        have hapart := hl.apart g h other this hg hwg hw array' array harray' harray
        refine mem_withLast hmem ?_
        dsimp only
        omega

/-- An insert gives the same result on both, and leaves them linked. -/
theorem Linked.insert_cases (hl : Linked w r lists bound) {h : H} (hw : w.maps h=some this)
    (hr : r.maps h=some m) (hrep : Represents w.heap lists this m) (hasher : Key → ℕ) (key : Key)
    (value : Value) (allocated : Bool) :
    (∃ fault,this.insert hasher key value allocated w.heap=.error fault ∧
      m.insert hasher key value (if allocated=true then some r.next else none)=.error fault) ∨
    (this.insert hasher key value allocated w.heap=.ok (⟨enomem⟩,w.heap) ∧
      m.insert hasher key value (if allocated=true then some r.next else none)=
        .ok (⟨enomem⟩,m)) ∨
    ∃ heap m' lists',this.insert hasher key value allocated w.heap=.ok (⟨0⟩,heap) ∧
      m.insert hasher key value (if allocated=true then some r.next else none)=.ok (⟨0⟩,m') ∧
      Linked ⟨heap,w.maps⟩ ⟨Function.update r.maps h (some m'),r.next+1⟩ lists' (bound+1) := by
  unfold HashMap.insert HashBuckets.HashMap.insert
  cases harray : this.buckets with
  | none =>
    rw [hrep.absent.mp harray]
    exact Or.inr (Or.inl ⟨rfl,rfl⟩)
  | some array =>
    obtain ⟨buckets,hbuckets,-⟩ := hrep.handedOut harray
    rw [hbuckets]
    dsimp only
    rcases hrep.index harray hbuckets hasher key with ⟨hthis,hm⟩ | ⟨bucket,hthis,hm,hbucket⟩
    · rw [hthis,hm]
      exact Or.inl ⟨.divideByZero,rfl,rfl⟩
    · rw [hthis,hm]
      cases allocated with
      | false => exact Or.inr (Or.inl ⟨rfl,rfl⟩)
      | true =>
        have hlinked := hl.insert hw hr hrep harray hbuckets hbucket key value
        simp only [Except.bind,if_true,hbucket]
        exact Or.inr (Or.inr ⟨_,_,_,rfl,rfl,hlinked⟩)

variable [BEq Key]

/-- One call gives the same answer on both, and leaves them linked. -/
theorem Linked.serve (hl : Linked w r lists bound) {fuel : ℕ} (hfuel : bound<fuel)
    (hasher : Key → ℕ) (a : Action H Key Value) :
    ∃ lists',Linked (w.serve fuel hasher a).1 (r.serve hasher a).1 lists' (bound+1) ∧
      (w.serve fuel hasher a).2=(r.serve hasher a).2 := by
  cases a with
  | construct h bucketCount allocated =>
    unfold World.serve Reference.serve
    rcases hl.cases h with ⟨hw,hr⟩ | ⟨this,m,hw,hr,hrep⟩
    · obtain ⟨lists',hnew⟩ := hl.construct h bucketCount allocated
      simp only [hw,hr]
      exact ⟨lists',hnew.more,trivial⟩
    · simp only [hw,hr]
      exact ⟨lists,hl.more,trivial⟩
  | moveConstruct dst src =>
    unfold World.serve Reference.serve
    rcases hl.cases dst with ⟨hwd,hrd⟩ | ⟨old,k,hwd,hrd,-⟩
    · rcases hl.cases src with ⟨hw,hr⟩ | ⟨other,m,hw,hr,hrep⟩
      · simp only [hwd,hrd,hw,hr]
        exact ⟨lists,hl.more,trivial⟩
      · have hne : dst≠src := by
          rintro rfl
          exact Option.some_ne_none other (hw.symm.trans hwd)
        simp only [hwd,hrd,hw,hr]
        exact ⟨lists,(hl.move hne hw hr hrep).more,trivial⟩
    · simp only [hwd,hrd]
      exact ⟨lists,hl.more,trivial⟩
  | moveAssign dst src =>
    unfold World.serve Reference.serve
    rcases hl.cases dst with ⟨hwd,hrd⟩ | ⟨old,k,hwd,hrd,-⟩
    · simp only [hwd,hrd]
      exact ⟨lists,hl.more,trivial⟩
    · rcases hl.cases src with ⟨hw,hr⟩ | ⟨other,m,hw,hr,hrep⟩
      · simp only [hwd,hrd,hw,hr]
        exact ⟨lists,hl.more,trivial⟩
      · simp only [hwd,hrd,hw,hr]
        by_cases hne : dst=src
        · simp only [if_pos hne]
          exact ⟨lists,hl.more,trivial⟩
        · simp only [if_neg hne]
          exact ⟨lists,(hl.move hne hw hr hrep).more,trivial⟩
  | destruct h =>
    unfold World.serve Reference.serve
    rcases hl.cases h with ⟨hw,hr⟩ | ⟨this,m,hw,hr,-⟩
    · simp only [hw,hr]
      exact ⟨lists,hl.more,trivial⟩
    · simp only [hw,hr]
      exact ⟨lists,(hl.drop h).more,trivial⟩
  | insert h key value allocated =>
    unfold World.serve Reference.serve
    rcases hl.cases h with ⟨hw,hr⟩ | ⟨this,m,hw,hr,hrep⟩
    · simp only [hw,hr]
      exact ⟨lists,hl.more,trivial⟩
    · simp only [hw,hr]
      rcases hl.insert_cases hw hr hrep hasher key value allocated with
        ⟨fault,hthis,hm⟩ | ⟨hthis,hm⟩ | ⟨heap,m',lists',hthis,hm,hlinked⟩
      · simp only [hthis,hm]
        exact ⟨lists,hl.more,trivial⟩
      · have hsame : Function.update r.maps h (some m)=r.maps := hr ▸ Function.update_eq_self h _
        simp only [hthis,hm,hsame]
        exact ⟨lists,hl.more,trivial⟩
      · simp only [hthis,hm,if_true]
        exact ⟨lists',hlinked,trivial⟩
  | find h key =>
    unfold World.serve Reference.serve
    rcases hl.cases h with ⟨hw,hr⟩ | ⟨this,m,hw,hr,hrep⟩
    · simp only [hw,hr]
      exact ⟨lists,hl.more,trivial⟩
    · simp only [hw,hr,hl.find_eq hrep hfuel]
      exact ⟨lists,hl.more,rfl⟩

/-- All calls give the same answers on both. -/
theorem Linked.answers_eq (hl : Linked w r lists bound) {fuel : ℕ}
    {actions : List (Action H Key Value)} (hfuel : bound+actions.length≤fuel) (hasher : Key → ℕ) :
    World.answers fuel hasher w actions=Reference.answers hasher r actions := by
  induction actions generalizing w r lists bound with
  | nil => rfl
  | cons a actions ih =>
    rw [List.length_cons] at hfuel
    have hbound : bound<fuel := by omega
    obtain ⟨lists',hlinked,hsame⟩ := hl.serve hbound hasher a
    have hrest := ih hlinked (by omega)
    rw [World.answers,Reference.answers,hsame,hrest]

end Steps

section Runs
variable {H : Type*} [DecidableEq H] [BEq Key]

/-- No maps yet, and arbitrary contents of memory. -/
def World.start (heap : Heap Key Value) : World H Key Value := ⟨heap,fun _ => none⟩

/-- No maps yet, with the same first address. -/
def Reference.start (next : ℕ) : Reference H Key Value := ⟨fun _ => none,next⟩

/-- Maps over linked cells in one heap, in any run of constructions, moves,
destructions, inserts and lookups with any outcome of the allocations. Every
call answers as on maps whose buckets are sequences of nodes: no loop is
without end or leaves its ring, and no map sees the nodes of another. -/
theorem rings_answer_as_sequences (hasher : Key → ℕ) (heap : Heap Key Value)
    (actions : List (Action H Key Value)) (fuel : ℕ) (hfuel : actions.length≤fuel) :
    World.answers fuel hasher (World.start heap) actions=
      Reference.answers hasher (Reference.start heap.next) actions := by
  have hlinked : Linked (World.start heap : World H Key Value) (Reference.start heap.next) [] 0 :=
    ⟨rfl,⟨nofun,List.nodup_nil⟩,nofun,nofun,fun _ => Option.Rel.none,nofun⟩
  exact hlinked.answers_eq (by omega) hasher

/-- Two colliding keys, a failed node, and a map that moved away. -/
def movedCalls : List (Action Bool ℕ ℕ) :=
  [.construct false 2 true,.insert false 1 10 true,.insert false 3 30 true,
    .insert false 5 50 false,.moveConstruct true false,.find true 3,.find false 3]

/-- Their answers. -/
theorem rings_answer_as_sequences_moved : movedCalls.length≤7 ∧
    World.answers 7 id (World.start ⟨⟨id,id⟩,fun _ => none,100⟩) movedCalls=
      [.done,.inserted (.ok ⟨0⟩),.inserted (.ok ⟨0⟩),.inserted (.ok ⟨enomem⟩),.done,
        .found (.ok (some 103)),.found (.ok none)] :=
  ⟨by decide,(rings_answer_as_sequences id _ movedCalls 7 (by decide)).trans rfl⟩

end Runs

end Kpp.HashRings
