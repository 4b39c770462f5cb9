import Kpp.KernelNames
import Kpp.StepRun
import Mathlib.Data.Int.Notation

/-!
# StringParam and the memory its view points into

`param_set_string` stores a view of the string it is given. The kernel may
reuse or free that string's memory as soon as the call is over, and later
gets read what the memory then holds. Freed bytes of memory are `none`.
-/

namespace Kpp.StringParams

open KernelNames (StringView)
open StepRun

/-- Memory cells by address; the freed ones are empty. -/
abbrev Memory := List (Option UInt8)

/-- The C string at the front of the cells. -/
def cString : Memory → Option (List UInt8)
  | some b::rest => if b=0 then some [] else (cString rest).map (b::·)
  | _ => none

/-- Read one byte behind a pointer. -/
def load (memory : Memory) (ptr : Option ℕ) (i : ℕ) : Option UInt8 :=
  ptr.bind (fun p => (memory[p+i]?).join)

/-- The bytes of a region from index `i` on. -/
def readBytes (memory : Memory) (ptr : Option ℕ) (i : ℕ) : ℕ → Option (List UInt8)
  | 0 => some []
  | n+1 =>
    (load memory ptr i).bind (fun b => (readBytes memory ptr (i+1) n).map (b::·))

/-- The bytes that `strncpy` writes: behind a NUL only zeros, unread. -/
def strncpy (memory : Memory) (src : Option ℕ) (i : ℕ) : ℕ → Option (List UInt8)
  | 0 => some []
  | n+1 =>
    (load memory src i).bind (fun b =>
      if b=0 then some (List.replicate (n+1) 0)
      else (strncpy memory src (i+1) n).map (b::·))

/-- `int` from a `size_t`. -/
def toInt (size : ℕ) : ℤ := (BitVec.ofNat 32 size).toInt

/-- `param_set_string` on a string: result and stored view; `none` when no
string is there. -/
def paramSetString (memory : Memory) (val : ℕ) : Option (ℤ×StringView) :=
  (cString (memory.drop val)).map (fun s => (0,⟨some val,s.length⟩))

/-- `param_get_string`: result and buffer afterwards; `none` when freed memory
is read or the buffer overflows. -/
def paramGetString (memory : Memory) (sv : StringView) (buffer : List UInt8) :
    Option (ℤ×List UInt8) :=
  (strncpy memory sv.data 0 sv.size).bind (fun bytes =>
    if sv.size<buffer.length then
      some (toInt sv.size,bytes++0::buffer.drop (sv.size+1))
    else none)

/-- The bytes of the view that `value` returns. -/
def valueBytes (memory : Memory) (sv : StringView) : Option (List UInt8) :=
  readBytes memory sv.data 0 sv.size

/-- Calls on the parameter, and whatever the others do to memory in between. -/
inductive Action where
  | memory (m : Memory)
  | set (val : ℕ)
  | get (buffer : List UInt8)
  | value

/-- A parameter in its surroundings. -/
structure State where
  /-- Memory outside the parameter. -/
  memory : Memory
  /-- `sv_`. -/
  sv : StringView
  /-- Address and bytes of the string last set. -/
  source : Option (ℕ×List UInt8)

/-- A new parameter. -/
def start (memory : Memory) : State := ⟨memory,⟨none,0⟩,none⟩

/-- One action; set is called with a string. -/
def step (s : State) : Action → Option State
  | .memory m => some {s with memory := m}
  | .set val =>
    match paramSetString s.memory val with
    | none => none
    | some (_,sv) =>
      some {s with sv := sv,source := (cString (s.memory.drop val)).map (val,·)}
  | .get _ => some s
  | .value => some s

/-- A read yields the string last set: get returns its length and writes it
with a NUL, if it fits, and the view has its bytes. -/
def Yields (s : State) : Action → Prop
  | .get buffer => ∀ p v,s.source=some (p,v) → v.length<buffer.length →
    paramGetString s.memory s.sv buffer=some ((v.length : ℤ),v++0::buffer.drop (v.length+1))
  | .value => ∀ p v,s.source=some (p,v) → valueBytes s.memory s.sv=some v
  | _ => True

/-- The bytes of a string are at an address. -/
def Holds (memory : Memory) (p : ℕ) (v : List UInt8) : Prop :=
  ∀ j,j<v.length → load memory (some p) j=v[j]?

/-- Whenever the parameter is read, the string last set is still in its place,
and its length is an `int` if it is returned. -/
def Undisturbed (s : State) : Action → Prop
  | .get buffer => ∀ p v,s.source=some (p,v) → v.length<buffer.length →
    Holds s.memory p v ∧ v.length<2^31
  | .value => ∀ p v,s.source=some (p,v) → Holds s.memory p v
  | _ => True

/-- The view is that of the string last set, which has no NUL. -/
def Tracks (s : State) : Prop :=
  ∀ p v,s.source=some (p,v) → s.sv=⟨some p,v.length⟩ ∧ (0 : UInt8)∉v

/-- What `strlen` runs over has no NUL. -/
theorem cString_noNul {cells : Memory} {v : List UInt8} (h : cString cells=some v) :
    (0 : UInt8)∉v := by
  induction cells generalizing v with
  | nil => cases h
  | cons c cells ih =>
    cases c with
    | none => cases h
    | some b =>
      by_cases hb : b=0
      · simp only [cString,if_pos hb,Option.some.injEq] at h
        subst h
        exact List.not_mem_nil
      · simp only [cString,if_neg hb,Option.map_eq_some_iff] at h
        obtain ⟨w,hw,rfl⟩ := h
        rw [List.mem_cons,not_or]
        exact ⟨Ne.symm hb,ih hw⟩

/-- Reads that agree with a string agree with its first byte and with the rest. -/
theorem reads_cons {f : ℕ → Option UInt8} {b : UInt8} {v : List UInt8} :
    (∀ j,j<(b::v).length → f j=(b::v)[j]?) ↔ f 0=some b ∧ ∀ j,j<v.length → f (j+1)=v[j]? := by
  constructor
  · intro h
    refine ⟨h 0 (Nat.succ_pos _),fun j hj => ?_⟩
    exact h (j+1) (Nat.succ_lt_succ hj)
  · rintro ⟨hzero,hrest⟩ j hj
    cases j with
    | zero => exact hzero
    | succ j => exact hrest j (Nat.lt_of_succ_lt_succ hj)

/-- A region reads as a string exactly when each of its bytes does. -/
theorem readBytes_eq_some {memory : Memory} {ptr : Option ℕ} {i : ℕ} {v : List UInt8} :
    readBytes memory ptr i v.length=some v ↔
      ∀ j,j<v.length → load memory ptr (i+j)=v[j]? := by
  induction v generalizing i with
  | nil => exact ⟨fun _ j hj => absurd hj (Nat.not_lt_zero j),fun _ => rfl⟩
  | cons b v ih =>
    have hshift : ∀ j,i+1+j=i+(j+1) := fun j => by omega
    rw [reads_cons (f := fun j => load memory ptr (i+j)),List.length_cons,readBytes]
    simp only [Nat.add_zero]
    cases hload : load memory ptr i with
    | none => simp only [Option.bind_none,reduceCtorEq,false_and]
    | some c =>
      simp only [Option.bind_some,Option.map_eq_some_iff,List.cons.injEq,Option.some.injEq]
      constructor
      · rintro ⟨w,hw,rfl,rfl⟩
        refine ⟨rfl,fun j hj => ?_⟩
        rw [←hshift]
        exact ih.mp hw j hj
      · rintro ⟨rfl,hrest⟩
        refine ⟨v,ih.mpr fun j hj => ?_,rfl,rfl⟩
        rw [hshift]
        exact hrest j hj

/-- A string without NUL is copied exactly when each of its bytes is read. -/
theorem strncpy_eq_some {memory : Memory} {src : Option ℕ} {i : ℕ} {v : List UInt8}
    (hv : (0 : UInt8)∉v) : strncpy memory src i v.length=some v ↔
      ∀ j,j<v.length → load memory src (i+j)=v[j]? := by
  induction v generalizing i with
  | nil => exact ⟨fun _ j hj => absurd hj (Nat.not_lt_zero j),fun _ => rfl⟩
  | cons b v ih =>
    have hb : b≠0 := fun h => hv (h ▸ List.mem_cons_self)
    have hrec := ih (i := i+1) (fun h => hv (List.mem_cons_of_mem b h))
    have hshift : ∀ j,i+1+j=i+(j+1) := fun j => by omega
    rw [reads_cons (f := fun j => load memory src (i+j)),List.length_cons,strncpy]
    simp only [Nat.add_zero]
    cases hload : load memory src i with
    | none => simp only [Option.bind_none,reduceCtorEq,false_and]
    | some c =>
      by_cases hc : c=0
      · subst hc
        simp only [Option.bind_some,if_true,Option.some.injEq,List.replicate_succ,List.cons.injEq,
          Ne.symm hb,false_and]
      · simp only [Option.bind_some,if_neg hc,Option.map_eq_some_iff,List.cons.injEq,
          Option.some.injEq]
        constructor
        · rintro ⟨w,hw,rfl,rfl⟩
          refine ⟨rfl,fun j hj => ?_⟩
          rw [←hshift]
          exact hrec.mp hw j hj
        · rintro ⟨rfl,hrest⟩
          refine ⟨v,hrec.mpr fun j hj => ?_,rfl,rfl⟩
          rw [hshift]
          exact hrest j hj

/-- A size is returned as it is exactly when it is an `int`. -/
theorem toInt_eq_iff (n : ℕ) : toInt n=(n : ℤ) ↔ n<2^31 := by
  unfold toInt
  rw [BitVec.toInt_eq_toNat_cond,BitVec.toNat_ofNat]
  split <;> omega

/-- Through the view of a string without NUL, get returns that string exactly
when it is still there and its length is an `int`. -/
theorem paramGetString_iff {memory : Memory} {p : ℕ} {v buffer : List UInt8}
    (hv : (0 : UInt8)∉v) (hlen : v.length<buffer.length) :
    paramGetString memory ⟨some p,v.length⟩ buffer=
        some ((v.length : ℤ),v++0::buffer.drop (v.length+1)) ↔
      Holds memory p v ∧ v.length<2^31 := by
  have hcopied : strncpy memory (some p) 0 v.length=some v ↔ Holds memory p v := by
    rw [strncpy_eq_some hv]
    simp only [Nat.zero_add]
    exact Iff.rfl
  rw [←hcopied,←toInt_eq_iff]
  unfold paramGetString
  simp only [if_pos hlen,Option.bind_eq_some_iff,Option.some.injEq,Prod.mk.injEq]
  constructor
  · rintro ⟨bytes,hbytes,hint,hout⟩
    have hsame : bytes=v := List.append_cancel_right hout
    rw [hsame] at hbytes
    exact ⟨hbytes,hint⟩
  · rintro ⟨hbytes,hint⟩
    exact ⟨v,hbytes,hint,rfl⟩

/-- Reads yield the string last set exactly when it is undisturbed. -/
theorem Tracks.yields_iff {s : State} (hs : Tracks s) {a : Action} :
    Yields s a ↔ Undisturbed s a := by
  cases a with
  | memory m => exact Iff.rfl
  | set val => exact Iff.rfl
  | get buffer =>
    refine forall_congr' fun p => forall_congr' fun v => forall_congr' fun hsource => ?_
    refine forall_congr' fun hlen => ?_
    obtain ⟨hview,hv⟩ := hs p v hsource
    rw [hview]
    exact paramGetString_iff hv hlen
  | value =>
    refine forall_congr' fun p => forall_congr' fun v => forall_congr' fun hsource => ?_
    obtain ⟨hview,_⟩ := hs p v hsource
    unfold valueBytes
    rw [hview,readBytes_eq_some]
    simp only [Nat.zero_add]
    exact Iff.rfl

/-- An action keeps the view, or it is a set and stores that of its string. -/
theorem step_cases {s t : State} {a : Action} (h : step s a=some t) :
    (t.sv=s.sv ∧ t.source=s.source) ∨
      ∃ val w,cString (s.memory.drop val)=some w ∧ t.sv=⟨some val,w.length⟩ ∧
        t.source=some (val,w) := by
  cases a with
  | memory m =>
    obtain rfl := Option.some.inj h
    exact Or.inl ⟨rfl,rfl⟩
  | get buffer =>
    obtain rfl := Option.some.inj h
    exact Or.inl ⟨rfl,rfl⟩
  | value =>
    obtain rfl := Option.some.inj h
    exact Or.inl ⟨rfl,rfl⟩
  | set val =>
    cases hstring : cString (s.memory.drop val) with
    | none => simp only [step,paramSetString,hstring,Option.map_none,reduceCtorEq] at h
    | some w =>
      simp only [step,paramSetString,hstring,Option.map_some,Option.some.injEq] at h
      subst h
      exact Or.inr ⟨val,w,hstring,rfl,rfl⟩

/-- Only set changes the view, to that of its string. -/
theorem Tracks.step {s t : State} (hs : Tracks s) {a : Action} (h : step s a=some t) :
    Tracks t := by
  intro p v hsource
  rcases step_cases h with ⟨hview,hsame⟩ | ⟨val,w,hstring,hview,hset⟩
  · rw [hview]
    exact hs p v (hsame ▸ hsource)
  · obtain ⟨rfl,rfl⟩ := Prod.mk.inj (Option.some.inj (hset.symm.trans hsource))
    exact ⟨hview,cString_noNul hstring⟩

/-- In every run all gets and value reads yield the string last set exactly
when at each of them that string is still in its place. -/
theorem yields_iff_undisturbed (memory : Memory) (actions : List Action) :
    Guarded step Yields (start memory) actions ↔
      Guarded step Undisturbed (start memory) actions := by
  have hstart : Tracks (start memory) := by
    intro p v hsource
    cases hsource
  exact guarded_congr (fun hs h => hs.step h) (fun hs _ => hs.yields_iff) hstart

/-- A string is set and its buffer reused: get returns the new contents, and
once the buffer is freed the bytes of value are gone. -/
theorem reused_buffer_read_back :
    (∃ t,run step (start [some 97,some 0]) [.set 0,.memory [some 98,some 0]]=some t ∧
      paramGetString t.memory t.sv [7,7,7]=some (1,[98,0,7])) ∧
    ¬Guarded step Yields (start [some 97,some 0])
      [.set 0,.memory [some 98,some 0],.get [7,7,7]] ∧
    ¬Guarded step Yields (start [some 97,some 0]) [.set 0,.memory [none,none],.value] := by
  refine ⟨⟨_,rfl,by decide⟩,?_,?_⟩
  · intro h
    have hget := (((h _ rfl).2 _ rfl).2 _ rfl).1
    exact absurd (hget 0 [97] rfl (by decide)) (by decide)
  · intro h
    have hvalue := (((h _ rfl).2 _ rfl).2 _ rfl).1
    exact absurd (hvalue 0 [97] rfl) (by decide)

end Kpp.StringParams
