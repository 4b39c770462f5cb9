import Kpp.HashBuckets

/-!
# What inserts into a HashMap leave alone

The history of a map and its lists determine each other, since an insert adds
one node behind those of its list or changes nothing. A lookup then depends
on the history of its own key only.
-/

namespace Kpp.HashFrames

open AssocLog HashBuckets StepRun

variable {Key Value : Type*} [BEq Key]

/-- The map holds the nodes of the successful inserts, and finds them. -/
structure Keeps (hasher : Key → ℕ) (s : State Key Value) : Prop where
  /-- The nodes are different objects. -/
  separate : (s.log.map Node.addr).Nodup
  /-- Each list has the nodes whose keys hash to it, in insertion order. -/
  placed : ∀ buckets,s.map.buckets=some buckets → buckets.length=s.map.bucketCount ∧
    ∀ i,i< s.map.bucketCount →
      buckets[i]?=some (s.log.filter (fun n => hasher n.key % s.map.bucketCount==i))
  /-- No inserted node is lost. -/
  kept : ∀ n∈s.log,∃ buckets bucket,s.map.buckets=some buckets ∧
    buckets[hasher n.key % s.map.bucketCount]?=some bucket ∧ n∈bucket
  /-- A key is found exactly when it was inserted, in the node of such an insert. -/
  found : ∀ k,∃ result,s.map.find hasher k=.ok result ∧
    (result≠none ↔ ∃ n∈s.log,(n.key==k)=true) ∧
    ∀ n,result=some n → n∈s.log ∧ (n.key==k)=true

/-- No lookup changes its result. -/
def SameFinds (hasher : Key → ℕ) (old new : HashMap Key Value) : Prop :=
  ∀ k,new.find hasher k=old.find hasher k

/-- The call forgets nothing. An insert leaves the lookups of other keys alone,
and all lookups when it returns `-ENOMEM`. -/
def Frames (hasher : Key → ℕ) (s : State Key Value) (c : Call Key Value) : Prop :=
  ∀ t,step hasher s c=some t → s.log<+:t.log ∧
    match c with
    | .insert key value allocated =>
      (∀ k,(key==k)=false → t.map.find hasher k=s.map.find hasher k) ∧
      ∀ map,s.map.insert hasher key value (if allocated=true then some s.nextNode else none)=
        .ok (⟨enomem⟩,map) → SameFinds hasher s.map map ∧ SameFinds hasher s.map t.map
    | .find _ => SameFinds hasher s.map t.map

/-- A filled map whose nodes are numbered in insertion order. -/
structure Numbered (hasher : Key → ℕ) (s : State Key Value) : Prop where
  /-- Each list has its nodes. -/
  filled : Filled hasher s
  /-- The allocator numbers the nodes. -/
  numbers : s.log.map Node.addr=List.range s.nextNode

variable {hasher : Key → ℕ} {s t : State Key Value}

/-- A map with numbered nodes keeps its history. -/
theorem Numbered.keeps (hs : Numbered hasher s)
    (hrespects : ∀ a b : Key,(a==b)=true → hasher a=hasher b) : Keeps hasher s := by
  have hf := hs.filled
  refine ⟨?_,?_,?_,?_⟩
  · rw [hs.numbers]
    exact List.nodup_range
  · exact fun buckets hb => ⟨hf.length buckets hb,hf.bucket buckets hb⟩
  · intro n hn
    cases hb : s.map.buckets with
    | none =>
      rw [hf.absent hb] at hn
      cases hn
    | some buckets =>
      refine ⟨buckets,_,rfl,hf.bucket buckets hb _ (hf.index n.key).2,?_⟩
      exact List.mem_filter.mpr ⟨hn,beq_self_eq_true _⟩
  · intro k
    refine ⟨_,hf.find_eq hrespects k,?_,?_⟩
    · rw [Option.ne_none_iff_isSome]
      exact List.find?_isSome
    · intro n hn
      have hkey : (n.key==k)=true := List.find?_some (p := fun e : Node Key Value => e.key==k) hn
      exact ⟨List.mem_of_find?_eq_some hn,hkey⟩

/-- A call frames the lookups in a filled map. -/
theorem frames_of_filled (hf : Filled hasher s)
    (hrespects : ∀ a b : Key,(a==b)=true → hasher a=hasher b) (c : Call Key Value) :
    Frames hasher s c := by
  intro t ht
  rcases hf.step_cases hrespects c with ⟨hsame,_⟩ | ⟨key,value,map,rfl,hnew,hf'⟩
  · obtain rfl : s=t := Option.some.inj (hsame.symm.trans ht)
    refine ⟨List.prefix_rfl,?_⟩
    cases c with
    | find key => exact fun k => rfl
    | insert key value allocated =>
      refine ⟨fun k _ => rfl,fun map hmap => ⟨?_,fun k => rfl⟩⟩
      rcases hf.insert_cases key value (if allocated=true then some s.nextNode else none) with
        ⟨hi,_⟩ | ⟨buckets,bucket,addr,_,_,_,hi⟩
      · obtain ⟨_,rfl⟩ := Prod.mk.inj (Except.ok.inj (hmap.symm.trans hi))
        exact fun k => rfl
      · obtain ⟨hcode,_⟩ := Prod.mk.inj (Except.ok.inj (hmap.symm.trans hi))
        exact absurd hcode (by decide)
  · obtain rfl := Option.some.inj (hnew.symm.trans ht)
    refine ⟨List.prefix_append _ _,?_,?_⟩
    · intro k hk
      rw [hf'.find_eq hrespects k,hf.find_eq hrespects k,first_append,hk,
        if_neg Bool.false_ne_true,Option.or_none]
    · intro map' hmap
      have herror : (⟨enomem⟩ : Error)≠⟨0⟩ := by decide
      rw [if_pos rfl] at hmap
      simp only [step,if_true,hmap,if_neg herror,Option.some.injEq,State.mk.injEq,Nat.left_eq_add,
        Nat.one_ne_zero,false_and,and_false] at hnew

/-- Every call keeps the map filled and its nodes numbered. -/
theorem Numbered.step (hs : Numbered hasher s)
    (hrespects : ∀ a b : Key,(a==b)=true → hasher a=hasher b) {c : Call Key Value}
    (h : step hasher s c=some t) : Numbered hasher t := by
  rcases hs.filled.step_cases hrespects c with ⟨hsame,_⟩ | ⟨key,value,map,rfl,hnew,hf'⟩
  · obtain rfl : s=t := Option.some.inj (hsame.symm.trans h)
    exact hs
  · obtain rfl := Option.some.inj (hnew.symm.trans h)
    refine ⟨hf',?_⟩
    rw [List.map_append,hs.numbers,List.range_succ]
    rfl

/-- Frame and failure behaviour of the map. No run of calls faults, after each
call the map holds and finds what was inserted, an insert whose allocations
succeed stores its node, and each call leaves alone what it should. -/
theorem inserts_kept_and_framed (hasher : Key → ℕ)
    (hrespects : ∀ a b : Key,(a==b)=true → hasher a=hasher b) (bucketCount : ℕ)
    (hpos : 0<bucketCount) (allocated : Bool) (calls : List (Call Key Value)) :
    (∃ t,run (step hasher) (start bucketCount allocated : State Key Value) calls=some t) ∧
      Along (step hasher) (Keeps hasher) (start bucketCount allocated) calls ∧
      Guarded (step hasher) (Stores hasher allocated) (start bucketCount allocated) calls ∧
      Guarded (step hasher) (Frames hasher) (start bucketCount allocated) calls := by
  have hstart : Numbered hasher (start bucketCount allocated : State Key Value) :=
    ⟨start_filled hpos allocated,rfl⟩
  refine ⟨?_,?_,stores_along hasher hrespects hpos allocated calls,?_⟩
  · obtain ⟨t,ht,_⟩ := hstart.filled.run_total hrespects calls
    exact ⟨t,ht⟩
  · exact along_of_preserved (fun hs => hs.keeps hrespects) (fun hs h => hs.step hrespects h) hstart
  · exact guarded_of_preserved (fun hs _ => frames_of_filled hs.filled hrespects _)
      (fun hs h => hs.step hrespects h) hstart

/-- Two keys in one list, and an insert without memory. -/
theorem inserts_kept_and_framed_colliding :
    (∃ t,run (step (fun _ : ℕ => 0)) (start 1 true)
      [.insert 5 1 true,.insert 6 2 true,.insert 5 3 false]=some t) ∧
    Along (step (fun _ : ℕ => 0)) (Keeps (fun _ => 0)) (start 1 true)
      [.insert 5 1 true,.insert 6 2 true,.insert 5 3 false] ∧
    Guarded (step (fun _ : ℕ => 0)) (Stores (fun _ => 0) true) (start 1 true)
      [.insert 5 1 true,.insert 6 2 true,.insert 5 3 false] ∧
    Guarded (step (fun _ : ℕ => 0)) (Frames (fun _ => 0)) (start 1 true)
      [.insert 5 1 true,.insert 6 2 true,.insert 5 3 false] :=
  inserts_kept_and_framed (fun _ => 0) (fun _ _ _ => rfl) 1 Nat.one_pos true _

end Kpp.HashFrames
