import Kpp.StringParams

/-!
# StringParam and the page its value is read into

The kernel passes a buffer of one page to the get callback of a parameter.
`param_get_string` copies as many bytes as the stored view counts, puts a NUL
behind them and returns the count.
-/

namespace Kpp.StringPages

open KernelNames (StringView)
open StringParams StepRun

/-- `PAGE_SIZE`. -/
def pageSize (pageShift : ℕ) : ℕ := 2^pageShift

/-- The writes of `strncpy` to its buffer from index `i` on. A byte that is
read from freed memory is written, too, but is not known. -/
def strncpyWrites (memory : Memory) (src : Option ℕ) (i : ℕ) : ℕ → List (ℕ×Option UInt8)
  | 0 => []
  | n+1 =>
    if load memory src i=some 0 then (List.range' i (n+1)).map (fun j => (j,some 0))
    else (i,load memory src i)::strncpyWrites memory src (i+1) n

/-- The writes of `param_get_string` to its buffer, and its result. -/
def getWrites (memory : Memory) (sv : StringView) : List (ℕ×Option UInt8)×ℤ :=
  (strncpyWrites memory sv.data 0 sv.size++[(sv.size,some 0)],toInt sv.size)

/-- A get stays in the page it is given, and returns less than its size. -/
def InPage (pageShift : ℕ) (s : State) : Action → Prop
  | .get _ => (∀ w∈(getWrites s.memory s.sv).1,w.1<pageSize pageShift) ∧
    (getWrites s.memory s.sv).1.length≤pageSize pageShift ∧
    (getWrites s.memory s.sv).2<pageSize pageShift
  | _ => True

/-- Whenever get is called, the string last set is shorter than a page. -/
def ShorterThanPage (pageShift : ℕ) (s : State) : Action → Prop
  | .get _ => ∀ p v,s.source=some (p,v) → v.length<pageSize pageShift
  | _ => True

/-- The view is as long as the string last set, and empty before that. -/
def Sized (s : State) : Prop := s.sv.size=(s.source.map (fun source => source.2.length)).getD 0

/-- `strncpy` writes to the indices of its count. -/
theorem strncpyWrites_indices (memory : Memory) (src : Option ℕ) (i n : ℕ) :
    (strncpyWrites memory src i n).map Prod.fst=List.range' i n := by
  induction n generalizing i with
  | zero => rfl
  | succ n ih =>
    unfold strncpyWrites
    split
    · rw [List.map_map]
      exact List.map_id' _
    · rw [List.map_cons,ih,List.range'_succ]

/-- From a NUL on, `strncpy` writes zeros. -/
theorem strncpyWrites_nul {memory : Memory} {src : Option ℕ} {i n : ℕ}
    (h : load memory src i=some 0) :
    (strncpyWrites memory src i (n+1)).map Prod.snd=
      (List.replicate (n+1) (0 : UInt8)).map some := by
  unfold strncpyWrites
  rw [if_pos h,List.map_map,List.map_replicate]
  exact List.map_const'.trans (by rw [List.length_range'])

/-- Where the source can be read, these are the bytes that `strncpy` copies. -/
theorem strncpyWrites_bytes {memory : Memory} {src : Option ℕ} {i n : ℕ} {bytes : List UInt8} :
    strncpy memory src i n=some bytes ↔
      (strncpyWrites memory src i n).map Prod.snd=bytes.map some := by
  induction n generalizing i bytes with
  | zero =>
    simp only [strncpy,strncpyWrites,Option.some.injEq,List.map_nil]
    exact ⟨fun h => by rw [←h]; rfl,fun h => (List.map_eq_nil_iff.mp h.symm).symm⟩
  | succ n ih =>
    cases hload : load memory src i with
    | none =>
      simp only [strncpy,strncpyWrites,hload,Option.bind_none,reduceCtorEq,if_false,List.map_cons,
        false_iff]
      cases bytes with
      | nil => exact List.cons_ne_nil _ _
      | cons b bytes => exact fun h => absurd (List.cons.inj h).1 (Option.some_ne_none b).symm
    | some c =>
      by_cases hc : c=0
      · subst hc
        rw [strncpyWrites_nul hload]
        simp only [strncpy,hload,Option.bind_some,if_true,Option.some.injEq]
        constructor
        · exact fun h => congrArg _ h
        · exact fun h => List.map_injective_iff.mpr (Option.some_injective _) h
      · have hfirst : (some c : Option UInt8)≠some 0 := fun h => hc (Option.some.inj h)
        simp only [strncpy,strncpyWrites,hload,Option.bind_some,if_neg hc,if_neg hfirst,
          List.map_cons,Option.map_eq_some_iff]
        cases bytes with
        | nil => simp only [List.cons_ne_nil,and_false,exists_false,List.map_nil]
        | cons b bytes =>
          rw [List.map_cons,List.cons.injEq,Option.some.injEq,←ih]
          constructor
          · rintro ⟨w,hw,hcons⟩
            obtain ⟨rfl,rfl⟩ := List.cons.inj hcons
            exact ⟨rfl,hw⟩
          · rintro ⟨rfl,hw⟩
            exact ⟨bytes,hw,rfl⟩

/-- The result of get is not more than the size of the view. -/
theorem toInt_le (n : ℕ) : toInt n≤(n : ℤ) := by
  unfold toInt
  rw [BitVec.toInt_eq_toNat_cond,BitVec.toNat_ofNat]
  split <;> omega

/-- `param_get_string` writes to all indices up to the size of the view. -/
theorem getWrites_indices (memory : Memory) (sv : StringView) :
    (getWrites memory sv).1.map Prod.fst=List.range' 0 (sv.size+1) := by
  unfold getWrites
  rw [List.map_append,strncpyWrites_indices,List.range'_concat]
  simp only [List.map_cons,List.map_nil,Nat.one_mul,Nat.zero_add]

/-- The writes of get are below a bound exactly when the size of the view is. -/
theorem getWrites_below (memory : Memory) (sv : StringView) (n : ℕ) :
    (∀ w∈(getWrites memory sv).1,w.1<n) ↔ sv.size<n := by
  constructor
  · exact fun h => h (sv.size,some 0) (List.mem_append_right _ List.mem_cons_self)
  · intro h w hw
    have hindex : w.1∈List.range' 0 (sv.size+1) :=
      getWrites_indices memory sv ▸ List.mem_map_of_mem hw
    have hrange := List.mem_range'_1.mp hindex
    omega

/-- Of a view that can be read, get succeeds in the buffers that its writes
stay in. -/
theorem paramGetString_isSome_iff {memory : Memory} {sv : StringView} {bytes : List UInt8}
    (hread : strncpy memory sv.data 0 sv.size=some bytes) (buffer : List UInt8) :
    (paramGetString memory sv buffer).isSome=true ↔
      ∀ w∈(getWrites memory sv).1,w.1<buffer.length := by
  rw [getWrites_below]
  simp only [paramGetString,hread,Option.bind_some]
  by_cases hfits : sv.size<buffer.length
  · simp only [hfits,if_true,Option.isSome_some]
  · simp only [hfits,if_false,Option.isSome_none,Bool.false_eq_true]

/-- A get stays in its page exactly when the view is shorter than a page. -/
theorem inPage_iff (pageShift : ℕ) (s : State) (buffer : List UInt8) :
    InPage pageShift s (.get buffer) ↔ s.sv.size<pageSize pageShift := by
  have hlength : (getWrites s.memory s.sv).1.length=s.sv.size+1 := by
    rw [←List.length_map (f := Prod.fst),getWrites_indices,List.length_range']
  have hresult : (getWrites s.memory s.sv).2≤(s.sv.size : ℤ) := toInt_le s.sv.size
  unfold InPage
  rw [getWrites_below,hlength]
  constructor
  · exact fun h => h.1
  · exact fun h => ⟨h,h,by omega⟩

/-- Every action keeps the size of the view. -/
theorem Sized.step {s t : State} (hs : Sized s) {a : Action} (h : step s a=some t) : Sized t := by
  unfold Sized
  rcases step_cases h with ⟨hview,hsame⟩ | ⟨val,w,_,hview,hset⟩
  · rw [hview,hsame]
    exact hs
  · rw [hview,hset]
    rfl

/-- Output of a parameter. In every run all gets stay in the page that the
kernel gives them exactly when at each of them the string last set is shorter
than a page. -/
theorem gets_in_page_iff (pageShift : ℕ) (memory : Memory) (actions : List Action) :
    Guarded step (InPage pageShift) (start memory) actions ↔
      Guarded step (ShorterThanPage pageShift) (start memory) actions := by
  have hpositive : 0<pageSize pageShift := Nat.two_pow_pos pageShift
  refine guarded_congr (I := Sized) (fun hs h => hs.step h) ?_ rfl
  intro s a t hs _
  cases a with
  | memory m => exact Iff.rfl
  | set val => exact Iff.rfl
  | value => exact Iff.rfl
  | get buffer =>
    rw [inPage_iff,hs]
    cases hsource : s.source with
    | none =>
      refine ⟨fun _ p v h => ?_,fun _ => hpositive⟩
      rw [hsource] at h
      cases h
    | some source =>
      constructor
      · intro h p v hpv
        obtain rfl := Option.some.inj (hsource.symm.trans hpv)
        exact h
      · exact fun h => h source.1 source.2 hsource

/-- A string in memory is read up to its NUL. -/
theorem cString_append {v : List UInt8} (hv : (0 : UInt8)∉v) (rest : Memory) :
    cString (v.map some++some 0::rest)=some v := by
  induction v with
  | nil => rfl
  | cons b v ih =>
    have hb : b≠0 := fun h => hv (h ▸ List.mem_cons_self)
    have hrest := ih (fun h => hv (List.mem_cons_of_mem b h))
    simp only [List.map_cons,List.cons_append,cString,if_neg hb,hrest,Option.map_some]

/-- After a string as long as a page is set, get writes its NUL behind the page. -/
theorem set_then_get {v : List UInt8} (hv : (0 : UInt8)∉v) (pageShift : ℕ)
    (hlong : pageSize pageShift≤v.length) :
    ∃ t,run step (start (v.map some++[some 0])) [.set 0]=some t ∧
      (v.length,some 0)∈(getWrites t.memory t.sv).1 ∧
      ¬Guarded step (InPage pageShift) (start (v.map some++[some 0])) [.set 0,.get []] := by
  have hstring := cString_append hv []
  have hstep : step (start (v.map some++[some 0])) (.set 0)=
      some ⟨v.map some++[some 0],⟨some 0,v.length⟩,some (0,v)⟩ := by
    simp only [step,start,paramSetString,List.drop_zero,hstring,Option.map_some]
  refine ⟨_,by rw [run,hstep]; rfl,List.mem_append_right _ List.mem_cons_self,fun h => ?_⟩
  have hget := ((h _ hstep).2 _ rfl).1
  exact absurd ((inPage_iff pageShift _ []).mp hget) (Nat.not_lt.mpr hlong)

/-- A string of a whole page of the letter `a`. -/
def pageOfLetters : List UInt8 := List.replicate 4096 97

/-- A string of a page of 4096 bytes is accepted, and the NUL behind its copy
is written behind the buffer. -/
theorem terminator_behind_page :
    ∃ t,run step (start (pageOfLetters.map some++[some 0])) [.set 0]=some t ∧
      (4096,some 0)∈(getWrites t.memory t.sv).1 ∧
      ¬Guarded step (InPage 12) (start (pageOfLetters.map some++[some 0])) [.set 0,.get []] := by
  have hletters : (0 : UInt8)∉pageOfLetters := by
    intro h
    exact absurd (List.eq_of_mem_replicate h) (by decide)
  have hlength : pageOfLetters.length=4096 := List.length_replicate
  have hpage : pageSize 12=4096 := by decide
  have h := set_then_get hletters 12 (by rw [hpage,hlength])
  rwa [hlength] at h

end Kpp.StringPages
