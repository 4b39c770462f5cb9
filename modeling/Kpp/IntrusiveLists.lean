import Kpp.PointerRings
import Kpp.StepRun

/-!
# Lists over the kernel's list heads

A `List` is a head cell, and its nodes are cells embedded in other objects.
All lists share one heap of cells. `del` gets the node alone and does not
know the list it is in. The reference keeps a sequence of nodes for each
list.
-/

namespace Kpp.IntrusiveLists

open PointerRings StepRun

variable {Ptr : Type*}

/-- `List::Iterator`. -/
structure Iterator (Ptr : Type*) where
  /-- `node_`. -/
  node : Ptr

/-- `Iterator::operator*`. -/
def Iterator.deref (this : Iterator Ptr) : Ptr := this.node

/-- `Iterator::operator++`. -/
def Iterator.increment (links : Links Ptr) (this : Iterator Ptr) : Iterator Ptr :=
  ⟨links.next this.node⟩

/-- `List::begin`; a list is at the address of its head. -/
def listBegin (links : Links Ptr) (this : Ptr) : Iterator Ptr := ⟨links.next this⟩

/-- `List::end`. -/
def listEnd (this : Ptr) : Iterator Ptr := ⟨this⟩

/-- A list with its reference sequence. -/
abbrev Entry (Ptr : Type*) := Ptr×List Ptr

/-- Head and nodes of a list. -/
abbrev ring (e : Entry Ptr) : List Ptr := e.1::e.2

/-- The heap of cells and the reference. -/
structure State (Ptr : Type*) where
  /-- Pointers of all cells. -/
  links : Links Ptr
  /-- Lists constructed so far, each with the sequence of its nodes. -/
  lists : List (Entry Ptr)

/-- No lists, and arbitrary pointers in memory. -/
def start (links : Links Ptr) : State Ptr := ⟨links,[]⟩

/-- The cell is neither a list nor in one. -/
def State.Free (s : State Ptr) (p : Ptr) : Prop := ∀ e∈s.lists,p∉ring e

section Code
variable [DecidableEq Ptr]

/-- `Iterator::operator!=`. -/
def Iterator.ne (this other : Iterator Ptr) : Bool := decide (this.node≠other.node)

/-- The nodes that a loop from one iterator to another visits; `none` while
it has not come to its end. -/
def forEach (links : Links Ptr) : ℕ → Iterator Ptr → Iterator Ptr → Option (List Ptr)
  | 0,_,_ => none
  | fuel+1,it,stop =>
    if it.ne stop=true then (forEach links fuel (it.increment links) stop).map (it.deref::·)
    else some []

/-- `INIT_LIST_HEAD`. -/
def initListHead (list : Ptr) (links : Links Ptr) : Links Ptr := links.join list list

/-- `list_add`. -/
def listAdd (new head : Ptr) (links : Links Ptr) : Links Ptr :=
  links.link new head (links.next head)

/-- `list_add_tail`. -/
def listAddTail (new head : Ptr) (links : Links Ptr) : Links Ptr :=
  links.link new (links.prev head) head

/-- `list_del`, which leaves poison in the removed cell. -/
def listDel (poison : Ptr×Ptr) (entry : Ptr) (links : Links Ptr) : Links Ptr :=
  let links := links.join (links.prev entry) (links.next entry)
  ⟨Function.update links.next entry poison.1,Function.update links.prev entry poison.2⟩

/-- `list_empty`. -/
def listEmpty (head : Ptr) (links : Links Ptr) : Bool := decide (links.next head=head)

instance (s : State Ptr) (p : Ptr) : Decidable (s.Free p) :=
  inferInstanceAs (Decidable (∀ e∈s.lists,p∉ring e))

/-- Constructor and member functions of `List`. -/
inductive Action (Ptr : Type*) where
  | construct (this : Ptr)
  | add (this node : Ptr)
  | addTail (this node : Ptr)
  | del (node : Ptr)

/-- One call, on the heap and on the reference. Lists are constructed in free
cells, only free cells are added, and only nodes of a list deleted. -/
def step (poison : Ptr×Ptr) (s : State Ptr) : Action Ptr → Option (State Ptr)
  | .construct this =>
    if s.Free this then some ⟨initListHead this s.links,s.lists++[(this,[])]⟩ else none
  | .add this node =>
    if (∃ e∈s.lists,e.1=this) ∧ s.Free node then
      some ⟨listAdd node this s.links,
        s.lists.map (fun e => if e.1=this then (e.1,node::e.2) else e)⟩
    else none
  | .addTail this node =>
    if (∃ e∈s.lists,e.1=this) ∧ s.Free node then
      some ⟨listAddTail node this s.links,
        s.lists.map (fun e => if e.1=this then (e.1,e.2++[node]) else e)⟩
    else none
  | .del node =>
    if ∃ e∈s.lists,node∈e.2 then
      some ⟨listDel poison node s.links,s.lists.map (fun e => (e.1,e.2.erase node))⟩
    else none

/-- The heap has every list as the reference has it. -/
structure Represents (s : State Ptr) : Prop where
  /-- Head and nodes form a circle. -/
  circle : ∀ e∈s.lists,Circle s.links (ring e)
  /-- The two pointers of its cells are inverse and stay in it. -/
  inverse : ∀ e∈s.lists,∀ p∈ring e,s.links.prev (s.links.next p)=p ∧
    s.links.next (s.links.prev p)=p ∧ s.links.next p∈ring e ∧ s.links.prev p∈ring e
  /-- No cell comes twice in a list. -/
  distinct : ∀ e∈s.lists,(ring e).Nodup
  /-- Different lists have no cell in common. -/
  apart : s.lists.Pairwise (fun e f => List.Disjoint (ring e) (ring f))
  /-- The loop from `begin` to `end` ends and visits the sequence. -/
  visits : ∀ e∈s.lists,∀ fuel,e.2.length<fuel →
    forEach s.links fuel (listBegin s.links e.1) (listEnd e.1)=some e.2
  /-- `empty` tells whether the sequence is empty. -/
  empty : ∀ e∈s.lists,listEmpty e.1 s.links=true ↔ e.2=[]

/-- Every list is a circle, and no cell is used twice. -/
structure Rings (s : State Ptr) : Prop where
  /-- Head and nodes form a circle. -/
  circle : ∀ e∈s.lists,Circle s.links (ring e)
  /-- All cells of all lists are different. -/
  nodup : (s.lists.flatMap ring).Nodup

end Code

variable {s t : State Ptr} {links links' : Links Ptr} {us vs : List (Entry Ptr)} {e e' : Entry Ptr}

/-- The cells of all lists, with those of one list in front. -/
theorem cells_perm (us vs : List (Entry Ptr)) (e : Entry Ptr) :
    ((us++e::vs).flatMap ring).Perm (ring e++(us++vs).flatMap ring) :=
  List.Perm.flatMap_right ring List.perm_middle

/-- Cells of the other lists are not those of this one. -/
theorem not_mem_ring (h : ((us++e::vs).flatMap ring).Nodup) {f : Entry Ptr} (hf : f∈us++vs)
    {p : Ptr} (hp : p∈ring f) : p∉ring e := by
  have hd := (List.nodup_append.mp ((cells_perm us vs e).nodup_iff.mp h)).2.2
  intro hpe
  exact hd p hpe p (List.mem_flatMap.mpr ⟨f,hf,hp⟩) rfl

/-- A list changed within its own cells leaves the others as they are. -/
theorem Rings.replace (hs : Rings ⟨links,us++e::vs⟩) (hcircle : Circle links' (ring e'))
    (hnodup : ((us++e'::vs).flatMap ring).Nodup)
    (hframe : ∀ p,p∉ring e → p∉ring e' →
      links'.next p=links.next p ∧ links'.prev p=links.prev p) :
    Rings ⟨links',us++e'::vs⟩ := by
  refine ⟨?_,hnodup⟩
  intro f hf
  rcases List.mem_cons.mp (List.perm_middle.mem_iff.mp hf) with rfl | hother
  · exact hcircle
  · have hold : f∈us++e::vs := List.perm_middle.mem_iff.mpr (List.mem_cons_of_mem e hother)
    refine circle_congr (hs.circle f hold) ?_
    exact fun p hp => hframe p (not_mem_ring hs.nodup hother hp) (not_mem_ring hnodup hother hp)

/-- A free cell is not among the cells of the lists. -/
theorem State.Free.not_mem {p : Ptr} (h : s.Free p) : p∉ s.lists.flatMap ring := by
  intro hm
  obtain ⟨f,hf,hp⟩ := List.mem_flatMap.mp hm
  exact h f hf hp

/-- A new cell in a list is different from all others. -/
theorem Rings.nodup_grow (hs : Rings ⟨links,us++e::vs⟩) {p : Ptr}
    (hp : State.Free ⟨links,us++e::vs⟩ p) (he : (ring e').Perm (p::ring e)) :
    ((us++e'::vs).flatMap ring).Nodup := by
  have hall : ((us++e'::vs).flatMap ring).Perm (p::(us++e::vs).flatMap ring) :=
    (cells_perm us vs e').trans
      ((he.append_right _).trans ((cells_perm us vs e).symm.cons p))
  exact hall.nodup_iff.mpr (List.nodup_cons.mpr ⟨hp.not_mem,hs.nodup⟩)

/-- Only one entry of a list is changed. -/
theorem map_one {f : Entry Ptr → Entry Ptr} (h : ∀ d∈us++vs,f d=d) :
    (us++e::vs).map f=us++f e::vs := by
  have hother : ∀ ws : List (Entry Ptr),(∀ d∈ws,d∈us++vs) → ws.map f=ws := by
    intro ws hws
    exact (List.map_congr_left (fun d hd => h d (hws d hd))).trans (List.map_id' ws)
  rw [List.map_append,List.map_cons,hother us (fun d hd => List.mem_append_left _ hd),
    hother vs (fun d hd => List.mem_append_right _ hd)]

/-- A ring and a free cell have no cell twice. -/
theorem Rings.nodup_cons (hs : Rings s) (he : e∈s.lists) {node : Ptr} (hfree : s.Free node) :
    (node::ring e).Nodup :=
  List.nodup_cons.mpr ⟨hfree e he,(List.nodup_flatMap.mp hs.nodup).1 e he⟩

variable [DecidableEq Ptr]

/-- A loop along a segment visits its cells and stops at the end. -/
theorem forEach_segment {a stop : Ptr} {xs : List Ptr} {fuel : ℕ} (h : Segment links a xs stop)
    (hstop : stop∉xs) (hfuel : xs.length<fuel) :
    forEach links fuel ⟨links.next a⟩ ⟨stop⟩=some xs := by
  induction xs generalizing a fuel with
  | nil =>
    obtain ⟨fuel,rfl⟩ : ∃ n,fuel=n+1 := Nat.exists_eq_add_one.mpr hfuel
    have hsame : (Iterator.ne ⟨links.next a⟩ ⟨stop⟩)=false := decide_eq_false (not_not.mpr h.1)
    simp only [forEach,hsame,Bool.false_eq_true,if_false]
  | cons x xs ih =>
    obtain ⟨fuel,rfl⟩ : ∃ n,fuel=n+1 := Nat.exists_eq_add_one.mpr (Nat.zero_lt_of_lt hfuel)
    have hx : x≠stop := fun he => hstop (he ▸ List.mem_cons_self)
    have hmore : (Iterator.ne ⟨x⟩ ⟨stop⟩)=true := decide_eq_true hx
    have hrest := ih h.2 (fun hm => hstop (List.mem_cons_of_mem x hm))
      (Nat.lt_of_succ_lt_succ hfuel)
    rw [h.1.1]
    simp only [forEach,hmore,if_true,Iterator.increment,hrest,Option.map_some,Iterator.deref]

/-- Rings represent the reference. -/
theorem Rings.represents (hs : Rings s) : Represents s := by
  have hapart := List.nodup_flatMap.mp hs.nodup
  refine ⟨hs.circle,fun e he p hp => circle_inverse (hs.circle e he) hp,hapart.1,hapart.2,?_,?_⟩
  · intro e he fuel hfuel
    exact forEach_segment (hs.circle e he) (List.nodup_cons.mp (hapart.1 e he)).1 hfuel
  · intro e he
    have hcircle := hs.circle e he
    have hhead := (List.nodup_cons.mp (hapart.1 e he)).1
    obtain ⟨this,xs⟩ := e
    cases xs with
    | nil => exact ⟨fun _ => rfl,fun _ => decide_eq_true hcircle.1⟩
    | cons x xs =>
      have hne : s.links.next this≠this := by
        rw [hcircle.1.1]
        exact fun hx => hhead (hx ▸ List.mem_cons_self)
      exact ⟨fun h => absurd (of_decide_eq_true h) hne,fun h => absurd h (List.cons_ne_nil x xs)⟩

/-- A free cell linked into one list keeps the rings. -/
theorem Rings.insert (hs : Rings s) (he : e∈s.lists) {node : Ptr} (hfree : s.Free node)
    {f : List Ptr → List Ptr} (hf : (f e.2).Perm (node::e.2))
    (hcircle : Circle links' (e.1::f e.2))
    (hframe : ∀ p,p∉ring e → p≠node →
      links'.next p=s.links.next p ∧ links'.prev p=s.links.prev p) :
    Rings ⟨links',s.lists.map (fun d => if d.1=e.1 then (d.1,f d.2) else d)⟩ := by
  obtain ⟨links,lists⟩ := s
  obtain ⟨us,vs,rfl⟩ := List.append_of_mem he
  have hmap : (us++e::vs).map (fun d => if d.1=e.1 then (d.1,f d.2) else d)=
      us++(e.1,f e.2)::vs := by
    refine (map_one ?_).trans (by rw [if_pos rfl])
    intro d hd
    refine if_neg fun hsame => ?_
    exact not_mem_ring hs.nodup hd List.mem_cons_self (hsame ▸ List.mem_cons_self)
  have hperm : (ring (e.1,f e.2)).Perm (node::ring e) :=
    (hf.cons e.1).trans (List.Perm.swap node e.1 e.2)
  have hgrow := hs.nodup_grow hfree hperm
  rw [hmap]
  refine hs.replace hcircle hgrow ?_
  intro p hp hp'
  exact hframe p hp fun hnode => hp' (hperm.mem_iff.mpr (hnode ▸ List.mem_cons_self))

/-- `add` keeps the rings. -/
theorem Rings.add (hs : Rings s) (he : e∈s.lists) {node : Ptr} (hfree : s.Free node) :
    Rings ⟨listAdd node e.1 s.links,
      s.lists.map (fun d => if d.1=e.1 then (d.1,node::d.2) else d)⟩ := by
  have hcircle := hs.circle e he
  have hnext := (circle_neighbours hcircle).2.2.1
  refine hs.insert he hfree (f := (node::·)) (List.Perm.refl _)
    (circle_link hcircle (hs.nodup_cons he hfree)) ?_
  intro p hp hnode
  exact link_frame hnode (fun h => hp (h ▸ List.mem_cons_self)) (fun h => hp (h ▸ hnext))

/-- `add_tail` keeps the rings. -/
theorem Rings.addTail (hs : Rings s) (he : e∈s.lists) {node : Ptr} (hfree : s.Free node) :
    Rings ⟨listAddTail node e.1 s.links,
      s.lists.map (fun d => if d.1=e.1 then (d.1,d.2++[node]) else d)⟩ := by
  have hcircle := hs.circle e he
  have hprev := (circle_neighbours hcircle).2.2.2
  refine hs.insert he hfree (f := (·++[node])) (List.perm_append_singleton node e.2)
    (circle_link_before hcircle (hs.nodup_cons he hfree)) ?_
  intro p hp hnode
  exact link_frame hnode (fun h => hp (h ▸ hprev)) (fun h => hp (h ▸ List.mem_cons_self))

/-- `list_del` writes to the removed cell and its neighbours only. -/
theorem listDel_frame {poison : Ptr×Ptr} {entry p : Ptr} (hentry : p≠entry)
    (hbefore : p≠links.prev entry) (hafter : p≠links.next entry) :
    (listDel poison entry links).next p=links.next p ∧
      (listDel poison entry links).prev p=links.prev p := by
  constructor
  · exact (Function.update_of_ne hentry _ _).trans (join_frame hbefore hafter).1
  · exact (Function.update_of_ne hentry _ _).trans (join_frame hbefore hafter).2

/-- Deleting a node takes it out of its circle. -/
theorem circle_del {poison : Ptr×Ptr} {this node : Ptr} {xs ys : List Ptr}
    (h : Circle links (this::(xs++node::ys))) (hd : (this::(xs++node::ys)).Nodup) :
    Circle (listDel poison node links) (this::(xs++ys)) := by
  have hturned : Circle links (node::(ys++this::xs)) := circle_rotate (this::xs) (node::ys) h
  have hperm : ((this::xs)++(node::ys)).Perm ((node::ys)++(this::xs)) := List.perm_append_comm
  have hnodup := hperm.nodup_iff.mp hd
  have hjoined := circle_rotate ys (this::xs) (circle_join hturned hnodup)
  refine circle_congr hjoined ?_
  intro p hp
  have hne : p≠node := by
    rintro rfl
    exact (List.nodup_cons.mp hnodup).1 (List.perm_append_comm.mem_iff.mp hp)
  exact ⟨Function.update_of_ne hne _ _,Function.update_of_ne hne _ _⟩

/-- `del` keeps the rings. -/
theorem Rings.del (hs : Rings s) (he : e∈s.lists) {node : Ptr} (hnode : node∈e.2)
    (poison : Ptr×Ptr) :
    Rings ⟨listDel poison node s.links,s.lists.map (fun d => (d.1,d.2.erase node))⟩ := by
  obtain ⟨links,lists⟩ := s
  obtain ⟨us,vs,rfl⟩ := List.append_of_mem he
  obtain ⟨this,nodes⟩ := e
  obtain ⟨xs,ys,rfl⟩ := List.append_of_mem hnode
  have hcircle := hs.circle _ he
  have hd : (this::(xs++node::ys)).Nodup := (List.nodup_flatMap.mp hs.nodup).1 _ he
  have hxs : node∉xs := by
    intro hm
    exact (List.nodup_append.mp (List.nodup_cons.mp hd).2).2.2 node hm node List.mem_cons_self rfl
  have herase : (xs++node::ys).erase node=xs++ys := by
    rw [List.erase_append_right _ hxs,List.erase_cons_head]
  have hmap : (us++(this,xs++node::ys)::vs).map (fun d => (d.1,d.2.erase node))=
      us++(this,xs++ys)::vs := by
    refine (map_one ?_).trans (by rw [herase])
    intro d hd
    have hout : node∉d.2 := fun hm =>
      not_mem_ring hs.nodup hd (List.mem_cons_of_mem d.1 hm) (List.mem_cons_of_mem this hnode)
    rw [List.erase_of_not_mem hout]
  have hperm : (ring (this,xs++node::ys)).Perm (node::ring (this,xs++ys)) :=
    (List.perm_middle.cons this).trans (List.Perm.swap node this (xs++ys))
  have hall : ((us++(this,xs++node::ys)::vs).flatMap ring).Perm
      (node::(us++(this,xs++ys)::vs).flatMap ring) :=
    (cells_perm us vs _).trans ((hperm.append_right _).trans ((cells_perm us vs _).symm.cons node))
  have hneighbours := circle_inverse hcircle (List.mem_cons_of_mem this hnode)
  rw [hmap]
  refine hs.replace (circle_del hcircle hd) (List.nodup_cons.mp (hall.nodup_iff.mp hs.nodup)).2 ?_
  intro p hp _
  have hne : p≠node := fun h => hp (by rw [h]; exact List.mem_cons_of_mem this hnode)
  have hbefore : p≠links.prev node := fun h => hp (h ▸ hneighbours.2.2.2)
  have hafter : p≠links.next node := fun h => hp (h ▸ hneighbours.2.2.1)
  exact listDel_frame hne hbefore hafter

/-- A list constructed in a free cell keeps the rings. -/
theorem Rings.construct (hs : Rings s) {this : Ptr} (hfree : s.Free this) :
    Rings ⟨initListHead this s.links,s.lists++[(this,[])]⟩ := by
  constructor
  · intro e he
    rcases List.mem_append.mp he with hold | hnew
    · refine circle_congr (hs.circle e hold) ?_
      intro p hp
      have hne : p≠this := fun h => hfree e hold (h ▸ hp)
      exact join_frame hne hne
    · obtain rfl := List.mem_singleton.mp hnew
      exact ⟨Function.update_self _ _ _,Function.update_self _ _ _⟩
  · rw [List.flatMap_append,List.flatMap_singleton]
    have hcomm : (s.lists.flatMap ring++ring (this,[])).Perm (this::s.lists.flatMap ring) :=
      List.perm_append_singleton this _
    exact hcomm.nodup_iff.mpr (List.nodup_cons.mpr ⟨hfree.not_mem,hs.nodup⟩)

/-- Every call keeps the rings. -/
theorem Rings.step (hs : Rings s) {poison : Ptr×Ptr} {a : Action Ptr}
    (h : step poison s a=some t) : Rings t := by
  cases a with
  | construct this =>
    obtain ⟨hfree,ht⟩ := Option.ite_none_right_eq_some.mp h
    obtain rfl := Option.some.inj ht
    exact hs.construct hfree
  | add this node =>
    obtain ⟨⟨⟨e,he,rfl⟩,hfree⟩,ht⟩ := Option.ite_none_right_eq_some.mp h
    obtain rfl := Option.some.inj ht
    exact hs.add he hfree
  | addTail this node =>
    obtain ⟨⟨⟨e,he,rfl⟩,hfree⟩,ht⟩ := Option.ite_none_right_eq_some.mp h
    obtain rfl := Option.some.inj ht
    exact hs.addTail he hfree
  | del node =>
    obtain ⟨⟨e,he,hnode⟩,ht⟩ := Option.ite_none_right_eq_some.mp h
    obtain rfl := Option.some.inj ht
    exact hs.del he hnode poison

/-- Lists in one heap of cells. After every call of every run each list is a
circle of its own through its head, its nodes are visited once each in the
order of the reference, and it is empty when the reference is. -/
theorem lists_represent_reference (poison : Ptr×Ptr) (links : Links Ptr)
    (actions : List (Action Ptr)) :
    Along (step poison) Represents (start links) actions := by
  have hstart : Rings (start links) := ⟨nofun,List.nodup_nil⟩
  exact along_of_preserved (fun hs => hs.represents) (fun hs h => hs.step h) hstart

/-- Two lists in use, and a node deleted without naming its list. -/
example : (run (step (0,0)) (start ⟨id,id⟩)
    [.construct 1,.construct 2,.add 1 10,.add 2 20,.addTail 1 11,.add 1 12,.del 10]).map
      (fun s => (forEach s.links 3 (listBegin s.links 1) (listEnd 1),s.lists))=
    some (some [12,11],[(1,[12,11]),(2,[20])]) := by decide

end Kpp.IntrusiveLists
