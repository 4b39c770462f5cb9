import Kpp.AssocLog
import Kpp.StepRun
import Mathlib.Data.Int.Notation

/-!
# HashMap over an array of lists

`insert` appends a node at the tail of its bucket without looking for the
key, and `find` returns the first node of the bucket with an equal key. A
history keeps the nodes of all successful inserts next to the map.
-/

namespace Kpp.HashBuckets

open AssocLog StepRun

/-- `kpp::Error`. -/
structure Error where
  /-- `code_`. -/
  code : ℤ
  deriving DecidableEq

/-- `-ENOMEM`. -/
abbrev enomem : ℤ := -12

/-- What the processor or the allocator's memory refuses. -/
inductive Fault where
  | divideByZero
  | outOfBounds
  deriving DecidableEq

/-- `HashMap::Node` at its address; the list link is its place in a bucket. -/
structure Node (Key Value : Type*) where
  /-- Address of the node, and so of its value field. -/
  addr : ℕ
  /-- `key`. -/
  key : Key
  /-- `value`. -/
  value : Value

/-- `HashMap`, each list of the bucket array as its nodes in order. -/
structure HashMap (Key Value : Type*) where
  /-- `buckets_`, null when its allocation failed. -/
  buckets : Option (List (List (Node Key Value)))
  /-- `bucket_count_`. -/
  bucketCount : ℕ

variable {Key Value : Type*}

/-- The constructor, with the outcome of the array's allocation. -/
def HashMap.create (bucketCount : ℕ) (allocated : Bool) : HashMap Key Value :=
  ⟨if allocated=true then some (List.replicate bucketCount []) else none,bucketCount⟩

/-- `hasher_(key) % bucket_count_`. -/
def HashMap.index (this : HashMap Key Value) (hasher : Key → ℕ) (key : Key) : Except Fault ℕ :=
  if this.bucketCount=0 then .error .divideByZero else .ok (hasher key % this.bucketCount)

/-- `HashMap::insert`; `mem` is the node's storage, null when `kmalloc` fails. -/
def HashMap.insert (this : HashMap Key Value) (hasher : Key → ℕ) (key : Key) (value : Value)
    (mem : Option ℕ) : Except Fault (Error×HashMap Key Value) :=
  match this.buckets with
  | none => .ok (⟨enomem⟩,this)
  | some buckets =>
    (this.index hasher key).bind (fun hash =>
      match mem with
      | none => .ok (⟨enomem⟩,this)
      | some addr =>
        match buckets[hash]? with
        | none => .error .outOfBounds
        | some bucket =>
          .ok (⟨0⟩,{this with buckets := some (buckets.set hash (bucket++[⟨addr,key,value⟩]))}))

/-- `HashMap::find`: the node whose value field the returned pointer refers
to, or null. -/
def HashMap.find [BEq Key] (this : HashMap Key Value) (hasher : Key → ℕ) (key : Key) :
    Except Fault (Option (Node Key Value)) :=
  match this.buckets with
  | none => .ok none
  | some buckets =>
    (this.index hasher key).bind (fun hash =>
      match buckets[hash]? with
      | none => .error .outOfBounds
      | some bucket => .ok (bucket.find? (fun current => current.key==key)))

/-- A call on the map; an insert comes with the outcome of its allocation. -/
inductive Call (Key Value : Type*) where
  | insert (key : Key) (value : Value) (allocated : Bool)
  | find (key : Key)

/-- A map with its allocator and its history. -/
structure State (Key Value : Type*) where
  /-- The map. -/
  map : HashMap Key Value
  /-- Address of the next node the allocator returns. -/
  nextNode : ℕ
  /-- Nodes of the inserts that returned `Error(0)`, oldest first. -/
  log : List (Node Key Value)

/-- A new map. -/
def start (bucketCount : ℕ) (allocated : Bool) : State Key Value :=
  ⟨HashMap.create bucketCount allocated,0,[]⟩

/-- One call; there is no step from a fault. -/
def step [BEq Key] (hasher : Key → ℕ) (s : State Key Value) :
    Call Key Value → Option (State Key Value)
  | .insert key value allocated =>
    let mem := if allocated=true then some s.nextNode else none
    match s.map.insert hasher key value mem with
    | .error _ => none
    | .ok (result,map) =>
      if result=⟨0⟩ then some ⟨map,s.nextNode+1,s.log++[⟨s.nextNode,key,value⟩]⟩
      else some {s with map := map}
  | .find key =>
    match s.map.find hasher key with
    | .error _ => none
    | .ok _ => some s

/-- `find` returns the value of the newest successful insert of each key, and
null exactly when there is none. -/
def FindsLatest [BEq Key] (hasher : Key → ℕ) (s : State Key Value) : Prop :=
  ∀ k,∃ found,s.map.find hasher k=.ok found ∧
    found.map Node.value=(latest Node.key s.log k).map Node.value

/-- An insert whose allocation succeeds brings a new key, or the value first
stored under an equal key. -/
def RepeatsValue [BEq Key] (s : State Key Value) : Call Key Value → Prop
  | .insert key value allocated =>
    allocated=true → ∀ old,first Node.key s.log key=some old → old.value=value
  | .find _ => True

/-- An insert whose allocations succeed, that of the array included, returns
`Error(0)` and stores its node. -/
def Stores [BEq Key] (hasher : Key → ℕ) (array : Bool) (s : State Key Value) :
    Call Key Value → Prop
  | .insert key value allocated => array=true → allocated=true →
    ∃ map,s.map.insert hasher key value (some s.nextNode)=.ok (⟨0⟩,map) ∧
      step hasher s (.insert key value allocated)=
        some ⟨map,s.nextNode+1,s.log++[⟨s.nextNode,key,value⟩]⟩
  | .find _ => True

/-- Every bucket lists the logged nodes that hash to it, in order. -/
structure Filled (hasher : Key → ℕ) (s : State Key Value) : Prop where
  /-- The array is not empty. -/
  positive : 0<s.map.bucketCount
  /-- Without an array nothing was inserted. -/
  absent : s.map.buckets=none → s.log=[]
  /-- The array has one list for each index. -/
  length : ∀ buckets,s.map.buckets=some buckets → buckets.length=s.map.bucketCount
  /-- Contents of each list. -/
  bucket : ∀ buckets,s.map.buckets=some buckets → ∀ i,i<s.map.bucketCount →
    buckets[i]?=some (s.log.filter (fun n => hasher n.key % s.map.bucketCount==i))

variable {hasher : Key → ℕ} {s t : State Key Value}

/-- The index of a key is inside the array. -/
theorem Filled.index (hf : Filled hasher s) (key : Key) :
    s.map.index hasher key=.ok (hasher key % s.map.bucketCount) ∧
      hasher key % s.map.bucketCount<s.map.bucketCount := by
  have hpos := hf.positive
  constructor
  · unfold HashMap.index
    rw [if_neg (by omega)]
  · exact Nat.mod_lt _ hpos

/-- An insert into a filled map fails for lack of memory and changes nothing,
or logs a node and appends it to its bucket. -/
theorem Filled.insert_cases (hf : Filled hasher s) (key : Key) (value : Value) (mem : Option ℕ) :
    (s.map.insert hasher key value mem=.ok (⟨enomem⟩,s.map) ∧ (s.map.buckets=none ∨ mem=none)) ∨
    ∃ buckets bucket addr,s.map.buckets=some buckets ∧ mem=some addr ∧
      buckets[hasher key % s.map.bucketCount]?=some bucket ∧
      s.map.insert hasher key value mem=.ok (⟨0⟩,{s.map with
        buckets := some (buckets.set (hasher key % s.map.bucketCount)
          (bucket++[⟨addr,key,value⟩]))}) := by
  have hindex := hf.index key
  unfold HashMap.insert
  cases hb : s.map.buckets with
  | none => exact Or.inl ⟨rfl,Or.inl rfl⟩
  | some buckets =>
    have hbucket := hf.bucket buckets hb _ hindex.2
    cases mem with
    | none =>
      refine Or.inl ⟨?_,Or.inr rfl⟩
      simp only [hindex.1,Except.bind]
    | some addr =>
      refine Or.inr ⟨buckets,_,addr,rfl,rfl,hbucket,?_⟩
      simp only [hindex.1,Except.bind,hbucket]

/-- A node logged and appended to its bucket keeps the map filled. -/
theorem Filled.append (hf : Filled hasher s) {buckets : List (List (Node Key Value))}
    {bucket : List (Node Key Value)} (hb : s.map.buckets=some buckets) (n : Node Key Value)
    (hbucket : buckets[hasher n.key % s.map.bucketCount]?=some bucket) (next : ℕ) :
    Filled hasher ⟨{s.map with
      buckets := some (buckets.set (hasher n.key % s.map.bucketCount) (bucket++[n]))},
      next,s.log++[n]⟩ := by
  refine ⟨hf.positive,nofun,?_,?_⟩
  · rintro _ ⟨⟩
    rw [List.length_set]
    exact hf.length buckets hb
  · rintro _ ⟨⟩ i hi
    change (buckets.set (hasher n.key % s.map.bucketCount) (bucket++[n]))[i]?=
      some ((s.log++[n]).filter (fun m => hasher m.key % s.map.bucketCount==i))
    have hold := hf.bucket buckets hb i hi
    rw [List.filter_append]
    by_cases he : hasher n.key % s.map.bucketCount=i
    · subst he
      have hlt : hasher n.key % s.map.bucketCount<buckets.length := by
        rw [hf.length buckets hb]
        exact hi
      rw [hbucket] at hold
      rw [List.getElem?_set_self hlt,Option.some.inj hold]
      simp only [List.filter_cons,beq_self_eq_true,if_true,List.filter_nil]
    · rw [List.getElem?_set_ne he,hold]
      have hother : (hasher n.key % s.map.bucketCount==i)=false := beq_false_of_ne he
      simp only [List.filter_cons,hother,Bool.false_eq_true,if_false,List.filter_nil,
        List.append_nil]

/-- A new map is filled. -/
theorem start_filled {bucketCount : ℕ} (hpos : 0<bucketCount) (allocated : Bool) :
    Filled hasher (start bucketCount allocated : State Key Value) := by
  refine ⟨hpos,fun _ => rfl,?_,?_⟩
  · intro buckets hb
    cases allocated with
    | false => exact absurd hb nofun
    | true =>
      cases hb
      exact List.length_replicate
  · intro buckets hb i hi
    cases allocated with
    | false => exact absurd hb nofun
    | true =>
      cases hb
      exact List.getElem?_replicate_of_lt hi

variable [BEq Key]

/-- `find` returns the oldest logged node of the key. -/
theorem Filled.find_eq (hf : Filled hasher s)
    (hrespects : ∀ a b : Key,(a==b)=true → hasher a=hasher b)
    (k : Key) : s.map.find hasher k=.ok (first Node.key s.log k) := by
  have hindex := hf.index k
  unfold HashMap.find
  cases hb : s.map.buckets with
  | none =>
    rw [hf.absent hb]
    rfl
  | some buckets =>
    have hbucket := hf.bucket buckets hb _ hindex.2
    have hpart : ∀ n : Node Key Value,(n.key==k)=true →
        (hasher n.key % s.map.bucketCount==hasher k % s.map.bucketCount)=true := by
      intro n hn
      rw [hrespects n.key k hn]
      exact beq_self_eq_true _
    simp only [hindex.1,Except.bind,hbucket]
    exact congrArg Except.ok (first_filter Node.key s.log k hpart)

/-- A call leaves the state as it is, or is an insert that logs its node and
keeps the map filled. -/
theorem Filled.step_cases (hf : Filled hasher s)
    (hrespects : ∀ a b : Key,(a==b)=true → hasher a=hasher b) (c : Call Key Value) :
    (step hasher s c=some s ∧ ∀ key value,c=.insert key value true → s.log=[]) ∨
    ∃ key value map,c=.insert key value true ∧
      step hasher s c=some ⟨map,s.nextNode+1,s.log++[⟨s.nextNode,key,value⟩]⟩ ∧
      Filled hasher ⟨map,s.nextNode+1,s.log++[⟨s.nextNode,key,value⟩]⟩ := by
  cases c with
  | find key =>
    refine Or.inl ⟨?_,nofun⟩
    simp only [step,hf.find_eq hrespects]
  | insert key value allocated =>
    rcases hf.insert_cases key value (if allocated=true then some s.nextNode else none) with
      ⟨hi,hwhy⟩ | ⟨buckets,bucket,addr,hb,hmem,hbucket,hi⟩
    · refine Or.inl ⟨?_,?_⟩
      · have herror : (⟨enomem⟩ : Error)≠⟨0⟩ := by decide
        simp only [step,hi,if_neg herror]
      · rintro _ _ ⟨⟩
        exact hf.absent (hwhy.resolve_right nofun)
    · obtain ⟨rfl,rfl⟩ : allocated=true ∧ addr=s.nextNode := by
        cases allocated with
        | false => exact absurd hmem nofun
        | true => exact ⟨rfl,(Option.some.inj hmem).symm⟩
      refine Or.inr ⟨key,value,_,rfl,?_,hf.append hb ⟨s.nextNode,key,value⟩ hbucket _⟩
      dsimp only [step]
      rw [hi]
      rfl

/-- A filled map with its array stores what it has memory for. -/
theorem Filled.stores (hf : Filled hasher s) {array : Bool}
    (harray : array=true → s.map.buckets≠none) (c : Call Key Value) : Stores hasher array s c := by
  cases c with
  | find key => trivial
  | insert key value allocated =>
    rintro hmade rfl
    rcases hf.insert_cases key value (some s.nextNode) with
      ⟨_,hwhy⟩ | ⟨buckets,bucket,addr,_,hmem,_,hi⟩
    · exact absurd (hwhy.resolve_right nofun) (harray hmade)
    · obtain rfl := Option.some.inj hmem
      refine ⟨_,hi,?_⟩
      dsimp only [step]
      rw [if_pos rfl,hi]
      rfl

/-- The array of a filled map stays. -/
theorem Filled.array (hf : Filled hasher s)
    (hrespects : ∀ a b : Key,(a==b)=true → hasher a=hasher b) {c : Call Key Value}
    (hb : s.map.buckets≠none) (h : step hasher s c=some t) : t.map.buckets≠none := by
  rcases hf.step_cases hrespects c with ⟨hsame,_⟩ | ⟨key,value,map,_,hnew,hf'⟩
  · obtain rfl : s=t := Option.some.inj (hsame.symm.trans h)
    exact hb
  · obtain rfl := Option.some.inj (hnew.symm.trans h)
    intro hnone
    exact absurd (hf'.absent hnone) (List.append_ne_nil_of_right_ne_nil _ (List.cons_ne_nil _ _))

/-- Every step from a filled map keeps it filled. -/
theorem Filled.after (hf : Filled hasher s)
    (hrespects : ∀ a b : Key,(a==b)=true → hasher a=hasher b) {c : Call Key Value}
    (h : step hasher s c=some t) : Filled hasher t := by
  rcases hf.step_cases hrespects c with ⟨hsame,_⟩ | ⟨key,value,map,_,hnew,hf'⟩
  · obtain rfl : s=t := Option.some.inj (hsame.symm.trans h)
    exact hf
  · obtain rfl := Option.some.inj (hnew.symm.trans h)
    exact hf'

/-- In every run of a map inserts with memory store their nodes. -/
theorem stores_along (hasher : Key → ℕ)
    (hrespects : ∀ a b : Key,(a==b)=true → hasher a=hasher b) {bucketCount : ℕ}
    (hpos : 0<bucketCount) (allocated : Bool) (calls : List (Call Key Value)) :
    Guarded (step hasher) (Stores hasher allocated)
      (start bucketCount allocated : State Key Value) calls := by
  refine guarded_of_preserved
    (I := fun s => Filled hasher s ∧ (allocated=true → s.map.buckets≠none)) ?_ ?_ ?_
  · exact fun hs _ => hs.1.stores hs.2 _
  · exact fun hs h => ⟨hs.1.after hrespects h,fun ha => hs.1.array hrespects (hs.2 ha) h⟩
  · refine ⟨start_filled hpos allocated,?_⟩
    rintro rfl
    exact Option.some_ne_none _

/-- In a filled map `find` agrees with the newest inserts exactly when oldest
and newest entries of the log agree. -/
theorem Filled.findsLatest_iff (hf : Filled hasher s)
    (hrespects : ∀ a b : Key,(a==b)=true → hasher a=hasher b) :
    FindsLatest hasher s ↔ Agrees Node.key Node.value s.log := by
  constructor
  · intro h k
    obtain ⟨found,hfound,hvalue⟩ := h k
    rw [hf.find_eq hrespects] at hfound
    rw [Except.ok.inj hfound]
    exact hvalue
  · intro h k
    exact ⟨_,hf.find_eq hrespects k,h k⟩

/-- No run of calls faults. -/
theorem Filled.run_total (hf : Filled hasher s)
    (hrespects : ∀ a b : Key,(a==b)=true → hasher a=hasher b) (calls : List (Call Key Value)) :
    ∃ t,run (step hasher) s calls=some t ∧ Filled hasher t := by
  induction calls generalizing s with
  | nil => exact ⟨s,rfl,hf⟩
  | cons c calls ih =>
    rcases hf.step_cases hrespects c with ⟨hc,_⟩ | ⟨key,value,map,_,hc,hf'⟩
    · obtain ⟨t,ht⟩ := ih hf
      refine ⟨t,?_,ht.2⟩
      rw [run,hc]
      exact ht.1
    · obtain ⟨t,ht⟩ := ih hf'
      refine ⟨t,?_,ht.2⟩
      rw [run,hc]
      exact ht.1

/-- A call from a filled map with a log that agrees ends in such a state
exactly when it repeats no key with another value. -/
theorem Filled.step_agrees_iff [EquivBEq Key] (hf : Filled hasher s)
    (hrespects : ∀ a b : Key,(a==b)=true → hasher a=hasher b)
    (ha : Agrees Node.key Node.value s.log) {c : Call Key Value} (hc : step hasher s c=some t) :
    Filled hasher t ∧ (Agrees Node.key Node.value t.log ↔ RepeatsValue s c) := by
  rcases hf.step_cases hrespects c with ⟨hsame,hempty⟩ | ⟨key,value,map,rfl,hnew,hf'⟩
  · obtain rfl : s=t := Option.some.inj (hsame.symm.trans hc)
    refine ⟨hf,fun _ => ?_,fun _ => ha⟩
    cases c with
    | find key => trivial
    | insert key value allocated =>
      intro hmem old hold
      subst hmem
      rw [hempty key value rfl] at hold
      cases hold
  · obtain rfl := Option.some.inj (hnew.symm.trans hc)
    refine ⟨hf',?_⟩
    rw [agrees_append_iff Node.key Node.value ha]
    exact ⟨fun h _ => h,fun h => h rfl⟩

/-- HashMap against a finite map. For every key equality that the hasher
respects no run of calls faults, inserts with memory store their nodes, and
after each call `find` returns the newest inserted value of every key exactly
when no insert stores a second value under a key. -/
theorem find_latest_iff_repeats_value [EquivBEq Key] (hasher : Key → ℕ)
    (hrespects : ∀ a b : Key,(a==b)=true → hasher a=hasher b) (bucketCount : ℕ)
    (hpos : 0<bucketCount) (allocated : Bool) (calls : List (Call Key Value)) :
    (∃ t,run (step hasher) (start bucketCount allocated : State Key Value) calls=some t) ∧
      Guarded (step hasher) (Stores hasher allocated) (start bucketCount allocated) calls ∧
      (Along (step hasher) (FindsLatest hasher) (start bucketCount allocated) calls ↔
        Guarded (step hasher) RepeatsValue (start bucketCount allocated) calls) := by
  have hstart : Filled hasher (start bucketCount allocated : State Key Value) :=
    start_filled hpos allocated
  refine ⟨?_,stores_along hasher hrespects hpos allocated calls,?_⟩
  · obtain ⟨t,ht,_⟩ := hstart.run_total hrespects calls
    exact ⟨t,ht⟩
  · refine along_iff_guarded
      (I := fun s => Filled hasher s ∧ Agrees Node.key Node.value s.log) ?_ ?_ ?_
      ⟨hstart,fun _ => rfl⟩
    · exact fun h => (h.1.findsLatest_iff hrespects).mpr h.2
    · intro s a t hs hg hstep
      have ht := hs.1.step_agrees_iff hrespects hs.2 hstep
      exact ⟨ht.1,ht.2.mpr hg⟩
    · intro s a t hs hstep hp
      have ht := hs.1.step_agrees_iff hrespects hs.2 hstep
      exact ht.2.mp ((ht.1.findsLatest_iff hrespects).mp hp)

/-- One bucket and one key stored twice. -/
theorem find_latest_iff_repeats_value_twice : 0<1 ∧
    (Along (step (fun _ : ℕ => 0)) (FindsLatest (fun _ => 0)) (start 1 true)
        [.insert 5 1 true,.insert 5 2 true] ↔
      Guarded (step (fun _ : ℕ => 0)) RepeatsValue (start 1 true)
        [.insert 5 1 true,.insert 5 2 true]) :=
  ⟨Nat.one_pos,
    (find_latest_iff_repeats_value (fun _ => 0) (fun _ _ _ => rfl) 1 Nat.one_pos true _).2.2⟩

/-- Two successful inserts of one key: `find` still returns the first value. -/
theorem second_insert_invisible :
    ∃ t,run (step (fun _ : ℕ => 0)) (start 4 true) [.insert 5 1 true,.insert 5 2 true]=some t ∧
      t.map.find (fun _ => 0) 5=.ok (some ⟨0,5,1⟩) ∧
      latest Node.key t.log 5=some ⟨1,5,2⟩ ∧ ¬FindsLatest (fun _ => 0) t := by
  refine ⟨_,rfl,rfl,rfl,fun h => ?_⟩
  obtain ⟨found,hfound,hvalue⟩ := h 5
  cases hfound
  exact absurd hvalue (by decide)

end Kpp.HashBuckets
