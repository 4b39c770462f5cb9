import Kpp.HashBuckets
import Kpp.StringParams

/-!
# Equality of StringView

A `StringView` counts its bytes, and `operator==` compares those of two views
by `strncmp`, which stops behind a NUL that both have.
-/

namespace Kpp.ViewEquality

open HashBuckets (HashMap Node)
open KernelNames (StringView)
open StringParams (reads_cons)

/-- Read one byte behind a pointer; nothing is at null. -/
def load (memory : List UInt8) (ptr : Option ℕ) (i : ℕ) : Option UInt8 :=
  ptr.bind (fun p => memory[p+i]?)

/-- The kernel's `strncmp` from index `i` on; `none` when it reads outside of
memory. -/
def strncmp (memory : List UInt8) (cs ct : Option ℕ) (i : ℕ) : ℕ → Option ℤ
  | 0 => some 0
  | count+1 =>
    (load memory cs i).bind (fun c1 => (load memory ct i).bind (fun c2 =>
      if c1≠c2 then some (if c1<c2 then -1 else 1)
      else if c1=0 then some 0
      else strncmp memory cs ct (i+1) count))

/-- `operator==`. -/
def operatorEq (memory : List UInt8) (lhs rhs : StringView) : Option Bool :=
  if lhs.size=rhs.size then
    (strncmp memory lhs.data rhs.data 0 lhs.size).map (fun result => decide (result=0))
  else some false

/-- `operator!=`. -/
def operatorNe (memory : List UInt8) (lhs rhs : StringView) : Option Bool :=
  (operatorEq memory lhs rhs).map (fun equal => !equal)

/-- A view of bytes in a memory. -/
structure View (memory : List UInt8) where
  /-- Pointer and size. -/
  view : StringView
  /-- Its bytes lie in memory. -/
  inside : ∀ p,view.data=some p → p+view.size≤ memory.length
  /-- The null view has no bytes. -/
  null : view.data=none → view.size=0

variable {memory : List UInt8}

/-- Bytes of the view. -/
def View.bytes (this : View memory) : List UInt8 := this.view.bytes memory

/-- Same size, and the same byte at every position below it. -/
def SameBytes (lhs rhs : View memory) : Prop :=
  lhs.view.size=rhs.view.size ∧ ∀ i,i<lhs.view.size → lhs.bytes[i]?=rhs.bytes[i]?

/-- Behind a common front that ends in NUL, rests of equal length are equal. -/
def NothingHidden (xs ys : List UInt8) : Prop :=
  ∀ front xs' ys',xs=front++0::xs' → ys=front++0::ys' → xs'.length=ys'.length → xs'=ys'

/-- Keys are compared by `operator==`. -/
instance : BEq (View memory) :=
  ⟨fun lhs rhs => decide (operatorEq memory lhs.view rhs.view=some true)⟩

/-- Every lookup of one key answers like that of the other, if they are hashed
alike. -/
def Interchangeable (lhs rhs : View memory) : Prop :=
  ∀ (Value : Type) (map : HashMap (View memory) Value) (hasher : View memory → ℕ),
    hasher lhs=hasher rhs → map.find hasher lhs=map.find hasher rhs

/-- What is expected of the equality of two views. -/
structure EqualityHolds (lhs rhs : View memory) : Prop where
  /-- Equal views are those of the same bytes. -/
  equal : operatorEq memory lhs.view rhs.view=some true ↔ SameBytes lhs rhs
  /-- Both operators return, and one negates the other. -/
  negated : ∃ b,operatorEq memory lhs.view rhs.view=some b ∧
    operatorNe memory lhs.view rhs.view=some (!b)
  /-- Equal views are the same key. -/
  interchangeable : SameBytes lhs rhs → Interchangeable lhs rhs
  /-- Only equal views match in a map. -/
  matched : ∀ (Value : Type) (map : HashMap (View memory) Value) (hasher : View memory → ℕ)
    (n : Node (View memory) Value),map.find hasher rhs=.ok (some n) → n.key=lhs → SameBytes lhs rhs

/-- What `strncmp` computes for bytes of equal number. -/
def compareBytes : List UInt8 → List UInt8 → ℤ
  | x::xs,y::ys =>
    if x≠y then (if x<y then -1 else 1) else if x=0 then 0 else compareBytes xs ys
  | _,_ => 0

/-- `strncmp` compares the bytes that it reads. -/
theorem strncmp_eq {cs ct : Option ℕ} {i : ℕ} {xs ys : List UInt8} (hlen : xs.length=ys.length)
    (hx : ∀ j,j<xs.length → load memory cs (i+j)=xs[j]?)
    (hy : ∀ j,j<ys.length → load memory ct (i+j)=ys[j]?) :
    strncmp memory cs ct i xs.length=some (compareBytes xs ys) := by
  induction xs generalizing i ys with
  | nil => rfl
  | cons x xs ih =>
    cases ys with
    | nil => cases hlen
    | cons y ys =>
      have hshift : ∀ j,i+1+j=i+(j+1) := fun j => by omega
      rw [reads_cons (f := fun j => load memory cs (i+j))] at hx
      rw [reads_cons (f := fun j => load memory ct (i+j))] at hy
      have hrest := ih (i := i+1) (Nat.succ.inj hlen) (fun j hj => by rw [hshift]; exact hx.2 j hj)
        (fun j hj => by rw [hshift]; exact hy.2 j hj)
      have hx0 : load memory cs i=some x := hx.1
      have hy0 : load memory ct i=some y := hy.1
      simp only [List.length_cons,strncmp,compareBytes,hx0,hy0,Option.bind_some,hrest]
      split
      · rfl
      · split <;> rfl

/-- Bytes of equal number compare as equal if they are, or if they are up to
a NUL. -/
theorem compareBytes_eq_zero {xs ys : List UInt8} (hlen : xs.length=ys.length) :
    compareBytes xs ys=0 ↔
      xs=ys ∨ ∃ front xs' ys',xs=front++0::xs' ∧ ys=front++0::ys' := by
  induction xs generalizing ys with
  | nil =>
    obtain rfl := List.length_eq_zero_iff.mp hlen.symm
    exact ⟨fun _ => Or.inl rfl,fun _ => rfl⟩
  | cons x xs ih =>
    cases ys with
    | nil => cases hlen
    | cons y ys =>
      have hrest := ih (Nat.succ.inj hlen)
      by_cases hxy : x=y
      · subst hxy
        by_cases hx : x=0
        · subst hx
          simp only [compareBytes,ne_eq,not_true_eq_false,if_false,if_true,true_iff]
          exact Or.inr ⟨[],xs,ys,rfl,rfl⟩
        · simp only [compareBytes,ne_eq,not_true_eq_false,if_false,if_neg hx,hrest,List.cons.injEq,
            true_and]
          refine or_congr_right ⟨?_,?_⟩
          · rintro ⟨front,xs',ys',rfl,rfl⟩
            exact ⟨x::front,xs',ys',rfl,rfl⟩
          · rintro ⟨front,xs',ys',hxs,hys⟩
            cases front with
            | nil => exact absurd (List.cons.inj hxs).1 hx
            | cons b front =>
              exact ⟨front,xs',ys',(List.cons.inj hxs).2,(List.cons.inj hys).2⟩
      · have hne : compareBytes (x::xs) (y::ys)≠0 := by
          simp only [compareBytes,ne_eq,hxy,not_false_eq_true,if_true]
          split <;> decide
        refine ⟨fun h => absurd h hne,?_⟩
        rintro (h | ⟨front,xs',ys',hxs,hys⟩)
        · exact absurd (List.cons.inj h).1 hxy
        · cases front with
          | nil => exact absurd ((List.cons.inj hxs).1.trans (List.cons.inj hys).1.symm) hxy
          | cons b front =>
            exact absurd ((List.cons.inj hxs).1.trans (List.cons.inj hys).1.symm) hxy

/-- A view has as many bytes as its size. -/
theorem View.length_bytes (this : View memory) : this.bytes.length=this.view.size := by
  unfold View.bytes StringView.bytes
  cases hp : this.view.data with
  | none => exact (this.null hp).symm
  | some p =>
    have hin := this.inside p hp
    simp only [List.length_take,List.length_drop]
    omega

/-- Reads behind the pointer of a view yield its bytes. -/
theorem View.load_bytes (this : View memory) {j : ℕ} (hj : j<this.bytes.length) :
    load memory this.view.data (0+j)=this.bytes[j]? := by
  rw [this.length_bytes] at hj
  unfold View.bytes StringView.bytes
  cases hp : this.view.data with
  | none =>
    have hzero := this.null hp
    omega
  | some p =>
    simp only [load,Option.bind_some,List.getElem?_take,if_pos hj,List.getElem?_drop,Nat.zero_add]

/-- `operator==` reads only bytes of the views and compares them. -/
theorem operatorEq_eq (lhs rhs : View memory) :
    operatorEq memory lhs.view rhs.view=some (decide (lhs.bytes.length=rhs.bytes.length ∧
      compareBytes lhs.bytes rhs.bytes=0)) := by
  have hl := lhs.length_bytes
  have hr := rhs.length_bytes
  unfold operatorEq
  by_cases hsize : lhs.view.size=rhs.view.size
  · have hlen : lhs.bytes.length=rhs.bytes.length := by rw [hl,hr,hsize]
    have hcompare := strncmp_eq hlen (fun j hj => lhs.load_bytes hj) (fun j hj => rhs.load_bytes hj)
    rw [hl] at hcompare
    simp only [if_pos hsize,hcompare,Option.map_some,hlen,true_and]
  · have hlen : lhs.bytes.length≠rhs.bytes.length := by rw [hl,hr]; exact hsize
    simp only [if_neg hsize,hlen,false_and,decide_false]

/-- Views of the same bytes have the same list of them. -/
theorem sameBytes_iff (lhs rhs : View memory) : SameBytes lhs rhs ↔ lhs.bytes=rhs.bytes := by
  have hl := lhs.length_bytes
  have hr := rhs.length_bytes
  constructor
  · rintro ⟨hsize,hbyte⟩
    refine List.ext_getElem? fun i => ?_
    by_cases hi : i<lhs.view.size
    · exact hbyte i hi
    · rw [List.getElem?_eq_none (by omega),List.getElem?_eq_none (by omega)]
  · intro h
    refine ⟨?_,fun i _ => by rw [h]⟩
    rw [←hl,←hr,h]

/-- `operator==` finds the same bytes equal and nothing else exactly when
nothing is hidden behind a NUL. -/
theorem operatorEq_iff (lhs rhs : View memory) :
    (operatorEq memory lhs.view rhs.view=some true ↔ SameBytes lhs rhs) ↔
      NothingHidden lhs.bytes rhs.bytes := by
  rw [operatorEq_eq,sameBytes_iff,Option.some.injEq,decide_eq_true_iff]
  constructor
  · rintro h front xs' ys' hx hy hlen
    have hall : lhs.bytes.length=rhs.bytes.length := by
      rw [hx,hy,List.length_append,List.length_append,List.length_cons,List.length_cons,hlen]
    have hzero := (compareBytes_eq_zero hall).mpr (Or.inr ⟨front,xs',ys',hx,hy⟩)
    have hsame := h.mp ⟨hall,hzero⟩
    rw [hx,hy] at hsame
    exact (List.cons.inj (List.append_cancel_left hsame)).2
  · intro h
    constructor
    · rintro ⟨hall,hzero⟩
      rcases (compareBytes_eq_zero hall).mp hzero with hsame | ⟨front,xs',ys',hx,hy⟩
      · exact hsame
      · have hlen : xs'.length=ys'.length := by
          rw [hx,hy,List.length_append,List.length_append,List.length_cons,List.length_cons] at hall
          omega
        rw [hx,hy,h front xs' ys' hx hy hlen]
    · intro hsame
      have hall := congrArg List.length hsame
      exact ⟨hall,(compareBytes_eq_zero hall).mpr (Or.inl hsame)⟩

/-- A lookup only depends on the bytes of its key and on its hash. -/
theorem interchangeable_of_bytes {lhs rhs : View memory} (h : lhs.bytes=rhs.bytes) :
    Interchangeable lhs rhs := by
  intro Value map hasher hhash
  have hsame : ∀ key : View memory,(key==lhs)=(key==rhs) := by
    intro key
    change decide (operatorEq memory key.view lhs.view=some true)=
      decide (operatorEq memory key.view rhs.view=some true)
    rw [operatorEq_eq,operatorEq_eq,h]
  unfold HashMap.find HashMap.index
  simp only [hsame,hhash]

/-- A node that a lookup ends at has an equal key. -/
theorem beq_of_find {Value : Type} {map : HashMap (View memory) Value} {hasher : View memory → ℕ}
    {key : View memory} {n : Node (View memory) Value} (h : map.find hasher key=.ok (some n)) :
    operatorEq memory n.key.view key.view=some true := by
  unfold HashMap.find at h
  cases hb : map.buckets with
  | none => simp only [hb,Except.ok.injEq,reduceCtorEq] at h
  | some buckets =>
    rw [hb] at h
    cases hi : map.index hasher key with
    | error f => simp only [hi,Except.bind,reduceCtorEq] at h
    | ok hash =>
      cases hbucket : buckets[hash]? with
      | none => simp only [hi,Except.bind,hbucket,reduceCtorEq] at h
      | some bucket =>
        simp only [hi,Except.bind,hbucket,Except.ok.injEq] at h
        have hkey : (n.key==key)=true :=
          List.find?_some (p := fun e : Node (View memory) Value => e.key==key) h
        exact of_decide_eq_true hkey

/-- Equality of views is that of their bytes, and views serve as keys, exactly
when nothing is hidden behind a NUL that they share. -/
theorem equality_holds_iff (lhs rhs : View memory) :
    EqualityHolds lhs rhs ↔ NothingHidden lhs.bytes rhs.bytes := by
  constructor
  · exact fun h => (operatorEq_iff lhs rhs).mp h.equal
  · intro h
    have hequal := (operatorEq_iff lhs rhs).mpr h
    refine ⟨hequal,⟨_,operatorEq_eq lhs rhs,?_⟩,?_,?_⟩
    · rw [operatorNe,operatorEq_eq,Option.map_some]
    · exact fun hsame => interchangeable_of_bytes ((sameBytes_iff lhs rhs).mp hsame)
    · rintro Value map hasher n hfind rfl
      exact hequal.mp (beq_of_find hfind)

/-- The view of a part of memory. -/
def View.part (memory : List UInt8) (p size : ℕ) (h : p+size≤ memory.length) : View memory :=
  ⟨⟨some p,size⟩,fun _ hq => Option.some.inj hq ▸ h,fun hp => absurd hp (Option.some_ne_none p)⟩

/-- The views of the bytes `a`, NUL, `b` and of the bytes `a`, NUL, `c`. -/
def embeddedLeft : View [97,0,98,97,0,99] := View.part _ 0 3 (by decide)
def embeddedRight : View [97,0,98,97,0,99] := View.part _ 3 3 (by decide)

/-- Views that differ behind a NUL are found equal, and one is found as a key
where the other was inserted. -/
theorem embedded_nul_hides_difference :
    embeddedLeft.bytes=[97,0,98] ∧ embeddedRight.bytes=[97,0,99] ∧
      operatorEq [97,0,98,97,0,99] embeddedLeft.view embeddedRight.view=some true ∧
      (⟨some [[⟨0,embeddedLeft,1⟩]],1⟩ : HashMap (View [97,0,98,97,0,99]) ℕ).find (fun _ => 0)
        embeddedRight=.ok (some ⟨0,embeddedLeft,1⟩) ∧
      ¬EqualityHolds embeddedLeft embeddedRight := by
  refine ⟨rfl,rfl,rfl,rfl,fun h => ?_⟩
  have hbyte := (h.equal.mp rfl).2 2 (by decide)
  exact absurd hbyte (by decide)

end Kpp.ViewEquality
