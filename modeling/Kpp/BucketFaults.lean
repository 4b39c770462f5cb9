import Kpp.HashBuckets

/-!
# Which bucket a HashMap call selects

Both calls guard the pointer to the bucket array and then index it by the
hash modulo the number of buckets. The array of no buckets is not null: the
allocator answers a request for zero bytes with a pointer that must not be
used.
-/

namespace Kpp.BucketFaults

open HashBuckets (Error HashMap Node enomem)

/-- What a call must not do on its way to a bucket. -/
inductive Fault where
  | divideByZero
  | nullArray
  | outOfArray
  deriving DecidableEq

/-- A call on the map; an insert comes with its node's storage, null when
`kmalloc` fails. -/
inductive Call (Key Value : Type*) where
  | insert (key : Key) (value : Value) (mem : Option ℕ)
  | find (key : Key)

variable {Key Value : Type*}

/-- Whether `kmalloc` returns a pointer for the array: zero bytes are always
available. -/
def arrayAllocated (bucketCount : ℕ) (available : Bool) : Bool :=
  decide (bucketCount=0) || available

/-- The constructor. -/
def construct (bucketCount : ℕ) (available : Bool) : HashMap Key Value :=
  HashMap.create bucketCount (arrayAllocated bucketCount available)

/-- `buckets_[hasher_(key) % bucket_count_]` with the index. -/
def selectBucket (this : HashMap Key Value) (hasher : Key → ℕ) (key : Key) :
    Except Fault (ℕ×List (Node Key Value)) :=
  if this.bucketCount=0 then .error .divideByZero
  else
    match this.buckets with
    | none => .error .nullArray
    | some buckets =>
      match buckets[hasher key % this.bucketCount]? with
      | none => .error .outOfArray
      | some bucket => .ok (hasher key % this.bucketCount,bucket)

/-- `HashMap::insert`. -/
def insert (this : HashMap Key Value) (hasher : Key → ℕ) (key : Key) (value : Value)
    (mem : Option ℕ) : Except Fault (Error×HashMap Key Value) :=
  if this.buckets.isNone=true then .ok (⟨enomem⟩,this)
  else
    (selectBucket this hasher key).bind (fun (hash,bucket) =>
      match mem with
      | none => .ok (⟨enomem⟩,this)
      | some addr => .ok (⟨0⟩,{this with
          buckets := this.buckets.map (fun buckets =>
            buckets.set hash (bucket++[⟨addr,key,value⟩]))}))

/-- `HashMap::find`. -/
def find [BEq Key] (this : HashMap Key Value) (hasher : Key → ℕ) (key : Key) :
    Except Fault (Option (Node Key Value)) :=
  if this.buckets.isNone=true then .ok none
  else
    (selectBucket this hasher key).bind (fun (_,bucket) =>
      .ok (bucket.find? (fun current => current.key==key)))

/-- One call, and the map after it. -/
def call [BEq Key] (hasher : Key → ℕ) (this : HashMap Key Value) :
    Call Key Value → Except Fault (HashMap Key Value)
  | .insert key value mem => (insert this hasher key value mem).map Prod.snd
  | .find key => (find this hasher key).map (fun _ => this)

/-- All calls in order, up to the first fault. -/
def execute [BEq Key] (hasher : Key → ℕ) :
    HashMap Key Value → List (Call Key Value) → Except Fault (HashMap Key Value)
  | this,[] => .ok this
  | this,c::calls => (call hasher this c).bind (fun this => execute hasher this calls)

/-- The array has as many lists as the map counts. -/
def Sized (this : HashMap Key Value) : Prop :=
  ∀ buckets,this.buckets=some buckets → buckets.length=this.bucketCount

variable {hasher : Key → ℕ} {this map : HashMap Key Value}

/-- A new map is sized. -/
theorem construct_sized (bucketCount : ℕ) (available : Bool) :
    Sized (construct bucketCount available : HashMap Key Value) := by
  intro buckets hb
  unfold construct HashMap.create at hb ⊢
  dsimp only at hb ⊢
  split at hb
  · cases hb
    exact List.length_replicate
  · cases hb

/-- With at least one bucket the selected one is in the array. -/
theorem Sized.selectBucket (hs : Sized this) (hasher : Key → ℕ) (hpos : this.bucketCount≠0)
    {buckets : List (List (Node Key Value))} (hb : this.buckets=some buckets) (key : Key) :
    ∃ bucket,selectBucket this hasher key=.ok (hasher key % this.bucketCount,bucket) := by
  have hlt : hasher key % this.bucketCount<buckets.length := by
    rw [hs buckets hb]
    exact Nat.mod_lt _ (Nat.pos_of_ne_zero hpos)
  refine ⟨buckets[hasher key % this.bucketCount],?_⟩
  unfold BucketFaults.selectBucket
  simp only [if_neg hpos,hb,List.getElem?_eq_getElem hlt]

/-- Without buckets no bucket is selected. -/
theorem selectBucket_zero (hzero : this.bucketCount=0) (key : Key) :
    selectBucket this hasher key=.error .divideByZero := if_pos hzero

/-- With an array, an insert goes on to its bucket. -/
theorem insert_eq {buckets : List (List (Node Key Value))} (hb : this.buckets=some buckets)
    (hasher : Key → ℕ) (key : Key) (value : Value) (mem : Option ℕ) :
    insert this hasher key value mem=
      (selectBucket this hasher key).bind (fun (hash,bucket) =>
        match mem with
        | none => .ok (⟨enomem⟩,this)
        | some addr => .ok (⟨0⟩,{this with
            buckets := some (buckets.set hash (bucket++[⟨addr,key,value⟩]))})) := by
  simp only [insert,hb,Option.isNone_some,Bool.false_eq_true,if_false,Option.map_some]

/-- With at least one bucket an insert does not fault. -/
theorem Sized.insert (hs : Sized this) (hasher : Key → ℕ) (hpos : this.bucketCount≠0) (key : Key)
    (value : Value) (mem : Option ℕ) :
    ∃ result map,insert this hasher key value mem=.ok (result,map) ∧ Sized map ∧
      map.bucketCount=this.bucketCount := by
  cases hb : this.buckets with
  | none =>
    refine ⟨⟨enomem⟩,this,?_,hs,rfl⟩
    simp only [BucketFaults.insert,hb,Option.isNone_none,if_true]
  | some buckets =>
    obtain ⟨bucket,hbucket⟩ := hs.selectBucket hasher hpos hb key
    cases mem with
    | none =>
      refine ⟨⟨enomem⟩,this,?_,hs,rfl⟩
      simp only [insert_eq hb,hbucket,Except.bind]
    | some addr =>
      refine ⟨⟨0⟩,{this with buckets := some (buckets.set (hasher key % this.bucketCount)
        (bucket++[⟨addr,key,value⟩]))},?_,?_,rfl⟩
      · simp only [insert_eq hb,hbucket,Except.bind]
      · rintro _ ⟨⟩
        rw [List.length_set]
        exact hs buckets hb

/-- A bucket selected without a fault is the one of the map's index. -/
theorem selectBucket_eq_ok {key : Key} {hash : ℕ} {bucket : List (Node Key Value)}
    (h : selectBucket this hasher key=.ok (hash,bucket)) :
    ∃ buckets,this.buckets=some buckets ∧ this.index hasher key=.ok hash ∧
      buckets[hash]?=some bucket := by
  unfold selectBucket at h
  by_cases hzero : this.bucketCount=0
  · rw [if_pos hzero] at h
    cases h
  · rw [if_neg hzero] at h
    cases hb : this.buckets with
    | none =>
      rw [hb] at h
      cases h
    | some buckets =>
      cases hbucket : buckets[hasher key % this.bucketCount]? with
      | none => simp only [hb,hbucket,reduceCtorEq] at h
      | some b =>
        simp only [hb,hbucket,Except.ok.injEq,Prod.mk.injEq] at h
        obtain ⟨rfl,rfl⟩ := h
        exact ⟨buckets,rfl,if_neg hzero,hbucket⟩

/-- An insert that does not fault is that of the map. -/
theorem insert_refines {key : Key} {value : Value} {mem : Option ℕ}
    {result : Error×HashMap Key Value} (h : insert this hasher key value mem=.ok result) :
    this.insert hasher key value mem=.ok result := by
  unfold HashMap.insert
  cases hb : this.buckets with
  | none =>
    simp only [insert,hb,Option.isNone_none,if_true,Except.ok.injEq] at h
    exact congrArg Except.ok h
  | some buckets =>
    cases hs : selectBucket this hasher key with
    | error f =>
      simp only [insert_eq hb,hs,Except.bind,reduceCtorEq] at h
    | ok selected =>
      obtain ⟨_,hsame,hindex,hbucket⟩ := selectBucket_eq_ok hs
      obtain rfl := Option.some.inj (hsame.symm.trans hb)
      simp only [insert_eq hb,hs,Except.bind] at h
      simp only [hindex,Except.bind,hbucket]
      cases mem with
      | none => exact congrArg Except.ok (Except.ok.inj h)
      | some addr => exact congrArg Except.ok (Except.ok.inj h)

variable [BEq Key]

/-- With an array, a lookup goes on to its bucket. -/
theorem find_eq {buckets : List (List (Node Key Value))} (hb : this.buckets=some buckets)
    (hasher : Key → ℕ) (key : Key) :
    find this hasher key=
      (selectBucket this hasher key).bind (fun (_,bucket) =>
        .ok (bucket.find? (fun current => current.key==key))) := by
  simp only [find,hb,Option.isNone_some,Bool.false_eq_true,if_false]

/-- With at least one bucket a lookup does not fault. -/
theorem Sized.find (hs : Sized this) (hasher : Key → ℕ) (hpos : this.bucketCount≠0) (key : Key) :
    ∃ found,find this hasher key=.ok found := by
  cases hb : this.buckets with
  | none => exact ⟨none,by simp only [BucketFaults.find,hb,Option.isNone_none,if_true]⟩
  | some buckets =>
    obtain ⟨bucket,hbucket⟩ := hs.selectBucket hasher hpos hb key
    refine ⟨bucket.find? (fun current => current.key==key),?_⟩
    simp only [find_eq hb,hbucket,Except.bind]

/-- With at least one bucket no call faults. -/
theorem Sized.call (hs : Sized this) (hasher : Key → ℕ) (hpos : this.bucketCount≠0)
    (c : Call Key Value) :
    ∃ map,call hasher this c=.ok map ∧ Sized map ∧ map.bucketCount=this.bucketCount := by
  cases c with
  | insert key value mem =>
    obtain ⟨result,map,hi,hmap⟩ := hs.insert hasher hpos key value mem
    refine ⟨map,?_,hmap⟩
    simp only [BucketFaults.call,hi,Except.map]
  | find key =>
    obtain ⟨found,hfound⟩ := hs.find hasher hpos key
    refine ⟨this,?_,hs,rfl⟩
    simp only [BucketFaults.call,hfound,Except.map]

/-- With at least one bucket no call of a run faults. -/
theorem Sized.execute (hs : Sized this) (hasher : Key → ℕ) (hpos : this.bucketCount≠0)
    (calls : List (Call Key Value)) : ∃ map,execute hasher this calls=.ok map := by
  induction calls generalizing this with
  | nil => exact ⟨this,rfl⟩
  | cons c calls ih =>
    obtain ⟨next,hcall,hsized,hcount⟩ := hs.call hasher hpos c
    obtain ⟨map,hmap⟩ := ih hsized (by rw [hcount]; exact hpos)
    refine ⟨map,?_⟩
    rw [BucketFaults.execute,hcall]
    exact hmap

/-- In an array without buckets every call divides by zero. -/
theorem call_zero (hasher : Key → ℕ) (hzero : this.bucketCount=0)
    {buckets : List (List (Node Key Value))} (hb : this.buckets=some buckets) (c : Call Key Value) :
    call hasher this c=.error .divideByZero := by
  cases c with
  | insert key value mem =>
    simp only [call,insert_eq hb,selectBucket_zero hzero,Except.bind,Except.map]
  | find key => simp only [call,find_eq hb,selectBucket_zero hzero,Except.bind,Except.map]

/-- A lookup that does not fault is that of the map. -/
theorem find_refines {key : Key} {found : Option (Node Key Value)}
    (h : find this hasher key=.ok found) : this.find hasher key=.ok found := by
  unfold HashMap.find
  cases hb : this.buckets with
  | none =>
    simp only [find,hb,Option.isNone_none,if_true,Except.ok.injEq] at h
    exact congrArg Except.ok h
  | some buckets =>
    cases hs : selectBucket this hasher key with
    | error f =>
      simp only [find_eq hb,hs,Except.bind,reduceCtorEq] at h
    | ok selected =>
      obtain ⟨_,hsame,hindex,hbucket⟩ := selectBucket_eq_ok hs
      obtain rfl := Option.some.inj (hsame.symm.trans hb)
      simp only [find_eq hb,hs,Except.bind] at h
      simp only [hindex,Except.bind,hbucket]
      exact congrArg Except.ok (Except.ok.inj h)

/-- Bucket selection. Whatever the allocator answers and whatever the hasher
computes, no call of a run divides by zero, uses a null array or leaves the
array, exactly when the map has a bucket or the run makes no call. -/
theorem bucket_selection_safe_iff (hasher : Key → ℕ) (bucketCount : ℕ) (available : Bool)
    (calls : List (Call Key Value)) :
    (∃ map,execute hasher (construct bucketCount available : HashMap Key Value) calls=.ok map) ↔
      bucketCount≠0 ∨ calls=[] := by
  constructor
  · rintro ⟨map,hmap⟩
    by_cases hzero : bucketCount=0
    · subst hzero
      cases calls with
      | nil => exact Or.inr rfl
      | cons c calls =>
        have hfault : call hasher (construct 0 available) c=.error .divideByZero :=
          call_zero hasher rfl rfl c
        rw [execute,hfault] at hmap
        cases hmap
    · exact Or.inl hzero
  · rintro (hpos | rfl)
    · exact (construct_sized bucketCount available).execute hasher hpos calls
    · exact ⟨_,rfl⟩

/-- A lookup in a map of no buckets, whose array is not null. -/
theorem no_buckets_divide_by_zero :
    (construct 0 true : HashMap ℕ ℕ).buckets=some [] ∧
      execute (fun _ : ℕ => 7) (construct 0 true : HashMap ℕ ℕ) [.find 5]=.error .divideByZero ∧
      ¬∃ map,execute (fun _ : ℕ => 7) (construct 0 true : HashMap ℕ ℕ) [.find 5]=.ok map :=
  ⟨rfl,rfl,nofun⟩

end Kpp.BucketFaults
