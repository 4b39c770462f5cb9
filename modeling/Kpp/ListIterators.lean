import Kpp.IntrusiveLists

/-!
# Iterators over lists that change

A `List::Iterator` is the address of a cell. Between its steps the program may
construct lists and add and delete nodes, of the same list and of others. In
the reference a cursor stands on a cell and knows the sequences; the iterators
of any run stand where the cursors do.
-/

namespace Kpp.ListIterators

open IntrusiveLists PointerRings StepRun

variable {I Ptr : Type*} [DecidableEq Ptr]

/-- The cell behind one of a list: the next node, and the head after the last. -/
def successor (e : Entry Ptr) (p : Ptr) : Ptr := (e.2++[e.1]).getD ((ring e).idxOf p) e.1

/-- Where an iterator is: on a cell, or at the address that `list_del` leaves
in a cell that was taken out. -/
inductive Cursor (Ptr : Type*) where
  | on (p : Ptr)
  | poison

/-- Address of a cursor. -/
def Cursor.address (poison : Ptr×Ptr) : Cursor Ptr → Ptr
  | .on p => p
  | .poison => poison.1

/-- Cursor at the beginning of a list. -/
def cursorBegin (lists : List (Entry Ptr)) (this : Ptr) : Option (Cursor Ptr) :=
  (lists.find? (fun e => decide (e.1=this))).map (fun e => .on (successor e e.1))

/-- The next cursor: the successor in the list that has the cell now. -/
def cursorNext (lists : List (Entry Ptr)) (p : Ptr) : Cursor Ptr :=
  match lists.find? (fun e => decide (p∈ring e)) with
  | some e => .on (successor e p)
  | none => .poison

/-- Lists, iterators and cursors. -/
structure State (I Ptr : Type*) where
  /-- The heap of cells, and the sequences. -/
  lists : IntrusiveLists.State Ptr
  /-- The iterators. -/
  iterators : I → Option (Iterator Ptr)
  /-- The cursors. -/
  cursors : I → Option (Cursor Ptr)

/-- A call on a list, the begin of a loop, or its step to the next node. -/
inductive Action (I Ptr : Type*) where
  | call (a : IntrusiveLists.Action Ptr)
  | begin (i : I) (this : Ptr)
  | increment (i : I)

/-- No lists and no iterators, and arbitrary pointers in memory. -/
def start (links : Links Ptr) : State I Ptr :=
  ⟨IntrusiveLists.start links,fun _ => none,fun _ => none⟩

variable [DecidableEq I]

/-- One action. An iterator at the address of deleted cells is not followed. -/
def step (poison : Ptr×Ptr) (s : State I Ptr) : Action I Ptr → Option (State I Ptr)
  | .call a => (IntrusiveLists.step poison s.lists a).map (fun lists => {s with lists := lists})
  | .begin i this =>
    (cursorBegin s.lists.lists this).map (fun cursor => {s with
      iterators := Function.update s.iterators i (some (listBegin s.lists.links this))
      cursors := Function.update s.cursors i (some cursor)})
  | .increment i =>
    match s.iterators i,s.cursors i with
    | some it,some (.on p) => some {s with
        iterators := Function.update s.iterators i (some (it.increment s.lists.links))
        cursors := Function.update s.cursors i (some (cursorNext s.lists.lists p))}
    | _,_ => none

/-- The iterators stand where the cursors do. -/
def Follows (poison : Ptr×Ptr) (s : State I Ptr) : Prop :=
  ∀ i,s.iterators i=(s.cursors i).map (fun cursor => ⟨cursor.address poison⟩)

/-- The cell is in a list, or was deleted and not used since. -/
def Placed (poison : Ptr×Ptr) (s : IntrusiveLists.State Ptr) (p : Ptr) : Prop :=
  (∃ e∈s.lists,p∈ring e) ∨ (s.Free p ∧ s.links.next p=poison.1)

/-- Rings, and cursors on cells that are placed. -/
structure Sound (poison : Ptr×Ptr) (s : State I Ptr) : Prop where
  /-- All lists are rings. -/
  rings : Rings s.lists
  /-- The iterators stand where the cursors do. -/
  follows : Follows poison s
  /-- Cursors are on lists or on deleted cells. -/
  placed : ∀ i p,s.cursors i=some (.on p) → Placed poison s.lists p

section Cells
omit [DecidableEq I]
variable {poison : Ptr×Ptr} {links : Links Ptr} {s t : IntrusiveLists.State Ptr}

/-- The pointer of a cell on a segment is to the cell behind it. -/
theorem segment_next {a stop p : Ptr} {xs : List Ptr} (h : Segment links a xs stop)
    (hp : p∈a::xs) : (xs++[stop])[(a::xs).idxOf p]?=some (links.next p) := by
  induction xs generalizing a with
  | nil =>
    obtain rfl := List.mem_singleton.mp hp
    rw [List.idxOf_cons_self]
    exact congrArg some h.1.symm
  | cons x xs ih =>
    by_cases hpa : p=a
    · subst hpa
      rw [List.idxOf_cons_self]
      exact congrArg some h.1.1.symm
    · have hrest := (List.mem_cons.mp hp).resolve_left hpa
      rw [List.idxOf_cons_ne _ (Ne.symm hpa)]
      exact ih h.2 hrest

/-- The pointer of a cell in a ring is to its successor, which is in it too. -/
theorem next_eq (hs : Rings s) {e : Entry Ptr} (he : e∈s.lists) {p : Ptr} (hp : p∈ring e) :
    s.links.next p=successor e p ∧ successor e p∈ring e := by
  have hnext := segment_next (hs.circle e he) hp
  have hsame : s.links.next p=successor e p := by
    rw [successor,List.getD_eq_getElem?_getD,hnext,Option.getD_some]
  exact ⟨hsame,hsame ▸ (circle_inverse (hs.circle e he) hp).2.2.1⟩

omit [DecidableEq Ptr] in
/-- A cell is in one list only. -/
theorem ring_unique (hs : Rings s) {d e : Entry Ptr} (hd : d∈s.lists) (he : e∈s.lists) {p : Ptr}
    (hpd : p∈ring d) (hpe : p∈ring e) : d=e := by
  obtain ⟨us,vs,hlists⟩ := List.append_of_mem he
  rw [hlists] at hd
  rcases List.mem_cons.mp (List.perm_middle.mem_iff.mp hd) with heq | hother
  · exact heq
  · have hnodup := hs.nodup
    rw [hlists] at hnodup
    exact absurd hpe (not_mem_ring hnodup hother hpd)

/-- The next cursor is where the pointer of a placed cell goes, and is placed. -/
theorem cursorNext_eq (hs : Rings s) {p : Ptr} (hp : Placed poison s p) :
    s.links.next p=(cursorNext s.lists p).address poison ∧
      ∀ q,cursorNext s.lists p=.on q → Placed poison s q := by
  unfold cursorNext
  cases hfind : s.lists.find? (fun e => decide (p∈ring e)) with
  | some e =>
    have hmem := List.mem_of_find?_eq_some hfind
    have hfound := List.find?_some hfind
    have hring : p∈ring e := of_decide_eq_true hfound
    obtain ⟨hnext,hin⟩ := next_eq hs hmem hring
    refine ⟨hnext,?_⟩
    intro q hq
    cases hq
    exact Or.inl ⟨e,hmem,hin⟩
  | none =>
    refine ⟨?_,nofun⟩
    rcases hp with ⟨e,he,hin⟩ | ⟨_,hpoison⟩
    · have hnot := List.find?_eq_none.mp hfind e he
      exact absurd (decide_eq_true hin) hnot
    · exact hpoison

/-- The cells of a list after a new one came into a list. -/
theorem mem_insert (hs : Rings s) {d e : Entry Ptr} (hd : d∈s.lists) (he : e∈s.lists) {node p : Ptr}
    {f : List Ptr → List Ptr} (hf : (f e.2).Perm (node::e.2)) :
    p∈ring (if d.1=e.1 then (d.1,f d.2) else d) ↔ p∈ring d ∨ (d=e ∧ p=node) := by
  by_cases hhead : d.1=e.1
  · have hsame : d=e := ring_unique hs hd he List.mem_cons_self (hhead ▸ List.mem_cons_self)
    subst hsame
    rw [if_pos rfl,List.mem_cons,hf.mem_iff,List.mem_cons,List.mem_cons]
    tauto
  · have hne : d≠e := fun h => hhead (congrArg Prod.fst h)
    rw [if_neg hhead]
    tauto

/-- A new cell in a list leaves the placed cells where they are. -/
theorem placed_insert (hs : Rings s) {e : Entry Ptr} (he : e∈s.lists) {node p : Ptr}
    {f : List Ptr → List Ptr} (hf : (f e.2).Perm (node::e.2))
    (hframe : p∉ring e → p≠node → links.next p=s.links.next p) (hp : Placed poison s p) :
    Placed poison ⟨links,s.lists.map (fun d => if d.1=e.1 then (d.1,f d.2) else d)⟩ p := by
  by_cases hin : ∃ d∈s.lists,p∈ring d ∨ (d=e ∧ p=node)
  · obtain ⟨d,hd,hpd⟩ := hin
    exact Or.inl ⟨_,List.mem_map_of_mem hd,(mem_insert hs hd he hf).mpr hpd⟩
  · right
    have hout : ∀ d∈s.lists,¬(p∈ring d ∨ (d=e ∧ p=node)) := fun d hd h => hin ⟨d,hd,h⟩
    have hnot := not_or.mp (hout e he)
    have hpoison : s.links.next p=poison.1 := by
      rcases hp with ⟨d,hd,hpd⟩ | ⟨_,hnext⟩
      · exact absurd (Or.inl hpd) (hout d hd)
      · exact hnext
    constructor
    · intro d' hd'
      obtain ⟨d,hd,hmap⟩ := List.mem_map.mp hd'
      rw [←hmap,mem_insert hs hd he hf]
      exact hout d hd
    · rw [hframe hnot.1 (fun h => hnot.2 ⟨rfl,h⟩),hpoison]

/-- A deleted cell is in no list, and the other cells are where they were. -/
theorem mem_erase (hs : Rings s) {d e : Entry Ptr} (hd : d∈s.lists) (he : e∈s.lists)
    {node p : Ptr} (hnode : node∈e.2) :
    p∈ring (d.1,d.2.erase node) ↔ p∈ring d ∧ p≠node := by
  have hnodup : ∀ f∈s.lists,(ring f).Nodup := (List.nodup_flatMap.mp hs.nodup).1
  have htail := (List.nodup_cons.mp (hnodup d hd)).2
  have hhead : d.1≠node := by
    intro h
    have hsame := ring_unique hs hd he List.mem_cons_self
      (h ▸ List.mem_cons_of_mem e.1 hnode)
    rw [←hsame] at hnode
    exact (List.nodup_cons.mp (hnodup d hd)).1 (h ▸ hnode)
  rw [List.mem_cons,htail.mem_erase_iff,List.mem_cons]
  constructor
  · rintro (rfl | ⟨hne,hp⟩)
    · exact ⟨Or.inl rfl,hhead⟩
    · exact ⟨Or.inr hp,hne⟩
  · rintro ⟨hp | hp,hne⟩
    · exact Or.inl hp
    · exact Or.inr ⟨hne,hp⟩

/-- Deleting a node leaves the other placed cells where they are, and the
address of deleted cells in the node. -/
theorem placed_del (hs : Rings s) {e : Entry Ptr} (he : e∈s.lists) {node p : Ptr}
    (hnode : node∈e.2) (hp : Placed poison s p) :
    Placed poison ⟨listDel poison node s.links,
      s.lists.map (fun d => (d.1,d.2.erase node))⟩ p := by
  have hring : node∈ring e := List.mem_cons_of_mem e.1 hnode
  by_cases hsame : p=node
  · subst hsame
    refine Or.inr ⟨?_,Function.update_self _ _ _⟩
    intro d' hd'
    obtain ⟨d,hd,hmap⟩ := List.mem_map.mp hd'
    rw [←hmap,mem_erase hs hd he hnode]
    exact fun h => h.2 rfl
  · rcases hp with ⟨d,hd,hpd⟩ | ⟨hfree,hpoison⟩
    · exact Or.inl ⟨_,List.mem_map_of_mem hd,(mem_erase hs hd he hnode).mpr ⟨hpd,hsame⟩⟩
    · have hneighbours := circle_inverse (hs.circle e he) hring
      have hframe : (listDel poison node s.links).next p=s.links.next p :=
        (listDel_frame hsame (fun h => hfree e he (h ▸ hneighbours.2.2.2))
          (fun h => hfree e he (h ▸ hneighbours.2.2.1))).1
      refine Or.inr ⟨?_,hframe.trans hpoison⟩
      intro d' hd'
      obtain ⟨d,hd,hmap⟩ := List.mem_map.mp hd'
      rw [←hmap,mem_erase hs hd he hnode]
      exact fun h => hfree d hd h.1

/-- Every call leaves the placed cells where they are. -/
theorem placed_step (hs : Rings s) {a : IntrusiveLists.Action Ptr}
    (h : IntrusiveLists.step poison s a=some t) {p : Ptr} (hp : Placed poison s p) :
    Placed poison t p := by
  cases a with
  | construct this =>
    obtain ⟨_,ht⟩ := Option.ite_none_right_eq_some.mp h
    obtain rfl := Option.some.inj ht
    rcases hp with ⟨e,he,hpe⟩ | ⟨hfree,hpoison⟩
    · exact Or.inl ⟨e,List.mem_append_left _ he,hpe⟩
    · by_cases hsame : p=this
      · subst hsame
        exact Or.inl ⟨(p,[]),List.mem_append_right _ List.mem_cons_self,List.mem_cons_self⟩
      · refine Or.inr ⟨?_,(join_frame hsame hsame).1.trans hpoison⟩
        intro e he
        rcases List.mem_append.mp he with hold | hnew
        · exact hfree e hold
        · rw [List.mem_singleton.mp hnew,List.mem_singleton]
          exact hsame
  | add this node =>
    obtain ⟨⟨⟨e,he,rfl⟩,_⟩,ht⟩ := Option.ite_none_right_eq_some.mp h
    obtain rfl := Option.some.inj ht
    have hnext := (circle_neighbours (hs.circle e he)).2.2.1
    refine placed_insert hs he (f := (node::·)) (List.Perm.refl _) ?_ hp
    intro hout hne
    exact (link_frame hne (fun h => hout (h ▸ List.mem_cons_self)) (fun h => hout (h ▸ hnext))).1
  | addTail this node =>
    obtain ⟨⟨⟨e,he,rfl⟩,_⟩,ht⟩ := Option.ite_none_right_eq_some.mp h
    obtain rfl := Option.some.inj ht
    have hprev := (circle_neighbours (hs.circle e he)).2.2.2
    refine placed_insert hs he (f := (·++[node])) (List.perm_append_singleton node e.2) ?_ hp
    intro hout hne
    exact (link_frame hne (fun h => hout (h ▸ hprev)) (fun h => hout (h ▸ List.mem_cons_self))).1
  | del node =>
    obtain ⟨⟨e,he,hnode⟩,ht⟩ := Option.ite_none_right_eq_some.mp h
    obtain rfl := Option.some.inj ht
    exact placed_del hs he hnode hp

end Cells

variable {poison : Ptr×Ptr} {s t : State I Ptr}

omit [DecidableEq Ptr] in
/-- Putting one iterator where its cursor goes keeps the cursors sound. -/
theorem Sound.put (hs : Sound poison s) {i : I} {it : Iterator Ptr} {cursor : Cursor Ptr}
    (hit : it.node=cursor.address poison)
    (hplaced : ∀ p,cursor=.on p → Placed poison s.lists p) :
    Sound poison {s with
      iterators := Function.update s.iterators i (some it)
      cursors := Function.update s.cursors i (some cursor)} := by
  refine ⟨hs.rings,?_,?_⟩
  · intro j
    change Function.update s.iterators i (some it) j=
      (Function.update s.cursors i (some cursor) j).map _
    by_cases hj : j=i
    · rw [hj,Function.update_self,Function.update_self,Option.map_some,←hit]
    · rw [Function.update_of_ne hj,Function.update_of_ne hj]
      exact hs.follows j
  · intro j p hp
    change Function.update s.cursors i (some cursor) j=some (.on p) at hp
    by_cases hj : j=i
    · rw [hj,Function.update_self] at hp
      exact hplaced p (Option.some.inj hp)
    · rw [Function.update_of_ne hj] at hp
      exact hs.placed j p hp

/-- Every action keeps the cursors sound. -/
theorem Sound.step (hs : Sound poison s) {a : Action I Ptr} (h : step poison s a=some t) :
    Sound poison t := by
  cases a with
  | call a =>
    obtain ⟨lists,hlists,ht⟩ := Option.map_eq_some_iff.mp h
    subst ht
    refine ⟨hs.rings.step hlists,hs.follows,?_⟩
    exact fun i p hp => placed_step hs.rings hlists (hs.placed i p hp)
  | begin i this =>
    obtain ⟨cursor,hcursor,ht⟩ := Option.map_eq_some_iff.mp h
    subst ht
    obtain ⟨e,hfind,hon⟩ := Option.map_eq_some_iff.mp hcursor
    have hmem := List.mem_of_find?_eq_some hfind
    have hfound := List.find?_some hfind
    have hhead : e.1=this := of_decide_eq_true hfound
    obtain ⟨hnext,hin⟩ := next_eq hs.rings hmem List.mem_cons_self
    subst hon
    refine hs.put ?_ ?_
    · rw [←hhead]
      exact hnext
    · intro p hp
      cases hp
      exact Or.inl ⟨e,hmem,hin⟩
  | increment i =>
    cases hit : s.iterators i with
    | none => simp only [ListIterators.step,hit,reduceCtorEq] at h
    | some it =>
      cases hcursor : s.cursors i with
      | none => simp only [ListIterators.step,hit,hcursor,reduceCtorEq] at h
      | some cursor =>
        cases cursor with
        | poison => simp only [ListIterators.step,hit,hcursor,reduceCtorEq] at h
        | on p =>
          simp only [ListIterators.step,hit,hcursor,Option.some.injEq] at h
          subst h
          have hsame := hs.follows i
          rw [hit,hcursor,Option.map_some,Option.some.injEq] at hsame
          obtain ⟨hnext,hplaced⟩ := cursorNext_eq hs.rings (hs.placed i p hcursor)
          refine hs.put ?_ hplaced
          rw [hsame]
          exact hnext

/-- Iterators in runs that change the lists under them. After every action of
every run each iterator is at its cursor. A cursor follows its cell: nodes put
behind the cell are visited, nodes taken out are not, a node that was moved to
another list leads on in that list, and one that was taken out and not put
back leads to the address of deleted cells. -/
theorem iterators_follow_lists (poison : Ptr×Ptr) (links : Links Ptr)
    (actions : List (Action I Ptr)) :
    Along (step poison) (Follows poison) (start links) actions := by
  have hstart : Sound poison (start (I := I) links) := by
    refine ⟨⟨nofun,List.nodup_nil⟩,fun _ => rfl,?_⟩
    intro i p h
    cases h
  exact along_of_preserved (fun hs => hs.follows) (fun hs h => hs.step h) hstart

/-- Moving the node of a loop to another list leads the loop into that list. -/
example : (run (step (0,0)) (start ⟨id,id⟩)
    [.call (.construct 1),.call (.construct 2),.call (.addTail 1 10),.call (.addTail 1 11),
      .call (.addTail 2 20),.begin () 1,.call (.del 10),.call (.add 2 10),.increment ()]).map
      (fun s => s.iterators ())=some (some ⟨20⟩) := by rfl

end Kpp.ListIterators
