import Kpp.EchoStream

/-!
# The echo driver on machine words

The calls of `EchoDriver` once more, with `size_t` and `loff_t` as 64-bit
words and the buffer as part of a larger memory, so that nothing about
lengths or offsets is built in. Memory is used through `load` and `store`
alone, and both record the place, which is computed from the signed offset,
and the number of bytes.
-/

namespace Kpp.EchoWords

open StepRun
open EchoCalls (bufferSize EFAULT)

/-- A use of consecutive bytes from a place in memory on. -/
structure Access where
  /-- The bytes are written. -/
  stores : Bool
  /-- First byte, counted from the start of `buffer_`. -/
  first : ℤ
  /-- Number of bytes. -/
  count : ℕ

/-- The driver's fields; memory is addressed from the start of `buffer_`. -/
structure EchoDriver where
  /-- `buffer_` and what is around it. -/
  memory : ℤ → UInt8
  /-- `buffer_len_`. -/
  bufferLen : BitVec 64
  /-- Uses of memory in the current call, the latest first. -/
  used : List Access

/-- A new driver among other memory. -/
def EchoDriver.new (around : ℤ → UInt8) : EchoDriver :=
  ⟨fun a => if 0≤a ∧ a<bufferSize then 0 else around a,0,[]⟩

/-- A call begins. -/
def EchoDriver.enter (this : EchoDriver) : EchoDriver := {this with used := []}

/-- Bytes of memory from a place on. -/
def EchoDriver.bytes (this : EchoDriver) (first : ℤ) (count : ℕ) : List UInt8 :=
  (List.range count).map (fun i : ℕ => this.memory (first+i))

/-- Load bytes from a place on. -/
def EchoDriver.load (this : EchoDriver) (first : ℤ) (count : ℕ) : List UInt8×EchoDriver :=
  (this.bytes first count,{this with used := ⟨false,first,count⟩::this.used})

/-- Store at most `count` bytes from a place on. -/
def EchoDriver.store (this : EchoDriver) (first : ℤ) (count : ℕ) (bytes : List UInt8) :
    EchoDriver :=
  let stored := bytes.take count
  {this with
    memory := fun a =>
      if first≤a ∧ a<first+stored.length then stored.getD (a-first).toNat 0 else this.memory a
    used := ⟨true,first,count⟩::this.used}

/-- What a call leaves. -/
structure Outcome where
  /-- The returned `ssize_t`. -/
  ret : BitVec 64
  /-- Bytes that reached the user. -/
  delivered : List UInt8
  /-- Bytes that reached the log, if the call logs. -/
  logged : Option (List UInt8)
  /-- `*offset`. -/
  offset : BitVec 64
  /-- The driver. -/
  driver : EchoDriver

/-- `min` of two `size_t`. -/
def minSize (x y : BitVec 64) : BitVec 64 := if x<y then x else y

/-- `min(size, buffer_len_ - (size_t)*offset)`. -/
def EchoDriver.readCount (this : EchoDriver) (size offset : BitVec 64) : BitVec 64 :=
  minSize size (this.bufferLen-offset)

/-- `EchoDriver::read`. The comparison and the difference convert the offset to
`size_t`; the address is computed from the offset as it is. -/
def EchoDriver.read (this : EchoDriver) (size offset : BitVec 64) (fault : Option ℕ) : Outcome :=
  if this.bufferLen≤offset then ⟨0,[],none,offset,this⟩
  else
    let count := this.readCount size offset
    let (bytes,this) := this.load offset.toInt count.toNat
    match fault with
    | some moved => ⟨BitVec.ofInt 64 (-EFAULT),bytes.take moved,none,offset,this⟩
    | none => ⟨count,bytes,none,offset+count,this⟩

/-- `buffer_len_ = count; buffer_[buffer_len_] = 0`. -/
def EchoDriver.terminate (this : EchoDriver) (count : BitVec 64) : EchoDriver :=
  let this := {this with bufferLen := count}
  this.store this.bufferLen.toNat 1 [0]

/-- `min(size, BUFFER_SIZE - 1)`. -/
def writeCount (size : BitVec 64) : BitVec 64 :=
  minSize size (BitVec.ofNat 64 (bufferSize-1))

/-- `EchoDriver::write`; a failing copy leaves bytes at the front of the buffer. -/
def EchoDriver.write (this : EchoDriver) (size offset : BitVec 64) (user : ℕ → UInt8)
    (fault : Option (List UInt8)) : Outcome :=
  let count := writeCount size
  match fault with
  | some garbage =>
    ⟨BitVec.ofInt 64 (-EFAULT),[],none,offset,this.store 0 count.toNat garbage⟩
  | none =>
    let copied := this.store 0 count.toNat ((List.range count.toNat).map user)
    let ended := copied.terminate count
    let (logged,this) := ended.load 0 ended.bufferLen.toNat
    ⟨count,[],some logged,0,this⟩

/-- A call with the offset it is given and how its copy ends. -/
inductive Call where
  | read (size offset : BitVec 64) (fault : Option ℕ)
  | write (size offset : BitVec 64) (user : ℕ → UInt8) (fault : Option (List UInt8))

/-- The size of a call. -/
def Call.size : Call → BitVec 64
  | .read size _ _ => size
  | .write size _ _ _ => size

/-- The offset of a call. -/
def Call.offset : Call → BitVec 64
  | .read _ offset _ => offset
  | .write _ offset _ _ => offset

/-- The call's outcome. -/
def Call.serve : Call → EchoDriver → Outcome
  | .read size offset fault,d => d.enter.read size offset fault
  | .write size offset user fault,d => d.enter.write size offset user fault

/-- One call. -/
def step (d : EchoDriver) (c : Call) : Option EchoDriver := some (c.serve d).driver

/-- The length leaves room for the terminator. -/
def Bounded (d : EchoDriver) : Prop := d.bufferLen.toNat≤255

/-- The difference that a read computes is that of the numbers, and a read
whose copy succeeds advances the offset by what it returns, within the message. -/
def Computes (d : EchoDriver) : Call → Prop
  | .read size offset fault =>
    let outcome := (Call.read size offset fault).serve d
    (¬d.bufferLen≤offset → 0≤offset.toInt ∧
      ((d.bufferLen-offset).toNat : ℤ)=d.bufferLen.toNat-offset.toInt) ∧
    (fault=none → outcome.offset.toInt=offset.toInt+outcome.ret.toInt ∧
      (0<outcome.ret.toInt → outcome.offset.toInt≤d.bufferLen.toNat))
  | .write _ _ _ _ => True

/-- A call stays inside the buffer and inside its bounds. -/
structure Safe (d : EchoDriver) (c : Call) : Prop where
  /-- Only bytes of `buffer_` are used. -/
  inside : ∀ a∈(c.serve d).driver.used,0≤a.first ∧ a.first+a.count≤bufferSize
  /-- Bytes that are loaded are before `buffer_len_`. -/
  live : ∀ a∈(c.serve d).driver.used,a.stores=false →
    a.first+a.count≤(c.serve d).driver.bufferLen.toNat
  /-- Memory around `buffer_` stays as it is. -/
  frame : ∀ a : ℤ,¬(0≤a ∧ a<bufferSize) → (c.serve d).driver.memory a=d.memory a
  /-- The user gets bytes from the offset on, and none at or beyond `buffer_len_`. -/
  delivered : ∃ n : ℕ,(c.serve d).delivered=d.bytes c.offset.toInt n ∧
    (0<n → 0≤c.offset.toInt ∧ c.offset.toInt+n≤d.bufferLen.toNat)
  /-- At most the requested size is returned and delivered. -/
  size : (c.serve d).ret.toInt≤c.size.toNat ∧ (c.serve d).delivered.length≤c.size.toNat
  /-- No computation wraps around. -/
  computes : Computes d c

/-- Bytes that differ from those at the beginning of a call lie in a recorded
store. -/
def EchoDriver.Records (this begun : EchoDriver) : Prop :=
  ∀ a,this.memory a≠begun.memory a →
    ∃ u∈this.used,u.stores=true ∧ u.first≤a ∧ a<u.first+u.count

/-- Loads change nothing. -/
theorem EchoDriver.Records.load {this begun : EchoDriver} (h : this.Records begun) (first : ℤ)
    (count : ℕ) : (this.load first count).2.Records begun := by
  intro a ha
  obtain ⟨u,hu,hin⟩ := h a ha
  exact ⟨u,List.mem_cons_of_mem _ hu,hin⟩

/-- Stores record what they change. -/
theorem EchoDriver.Records.store {this begun : EchoDriver} (h : this.Records begun) (first : ℤ)
    (count : ℕ) (bytes : List UInt8) : (this.store first count bytes).Records begun := by
  intro a ha
  by_cases hin : first≤a ∧ a<first+(bytes.take count).length
  · have hlen := List.length_take_le count bytes
    exact ⟨_,List.mem_cons_self,rfl,hin.1,by dsimp only; omega⟩
  · simp only [EchoDriver.store,if_neg hin] at ha
    obtain ⟨u,hu,hin⟩ := h a ha
    exact ⟨u,List.mem_cons_of_mem _ hu,hin⟩

/-- The end of a message is stored. -/
theorem EchoDriver.Records.terminate {this begun : EchoDriver} (h : this.Records begun)
    (count : BitVec 64) : (this.terminate count).Records begun := by
  have hlonger : EchoDriver.Records {this with bufferLen := count} begun := h
  exact hlonger.store _ _ _

/-- A call records all that it changes. -/
theorem Call.records (c : Call) (d : EchoDriver) : (c.serve d).driver.Records d := by
  have hbegin : d.enter.Records d := fun a ha => absurd rfl ha
  cases c with
  | read size offset fault =>
    rw [Call.serve,EchoDriver.read]
    split
    · exact hbegin
    · cases fault with
      | some moved => exact hbegin.load _ _
      | none => exact hbegin.load _ _
  | write size offset user fault =>
    cases fault with
    | some garbage => exact hbegin.store _ _ _
    | none =>
      have hcopied := hbegin.store 0 (writeCount size).toNat
        ((List.range (writeCount size).toNat).map user)
      exact (hcopied.terminate _).load _ _

/-- What stays inside the buffer changes nothing around it. -/
theorem Call.frame {c : Call} {d : EchoDriver}
    (hin : ∀ a∈(c.serve d).driver.used,0≤a.first ∧ a.first+a.count≤bufferSize) (a : ℤ)
    (ha : ¬(0≤a ∧ a<bufferSize)) : (c.serve d).driver.memory a=d.memory a := by
  by_contra hne
  obtain ⟨u,hu,_,hfirst,hlast⟩ := c.records d a hne
  have hbounds := hin u hu
  omega

/-- The number of a minimum. -/
theorem toNat_minSize (x y : BitVec 64) : (minSize x y).toNat=min x.toNat y.toNat := by
  unfold minSize
  split
  · next h =>
    rw [BitVec.lt_def] at h
    omega
  · next h =>
    rw [BitVec.lt_def] at h
    omega

/-- An offset that passes the guard is a number below the length. -/
theorem Bounded.offset {d : EchoDriver} (hd : Bounded d) {offset : BitVec 64}
    (h : ¬d.bufferLen≤offset) : offset.toNat<d.bufferLen.toNat ∧
      offset.toInt=offset.toNat ∧ (d.bufferLen-offset).toNat=d.bufferLen.toNat-offset.toNat := by
  unfold Bounded at hd
  have hlt : offset.toNat<d.bufferLen.toNat := by
    rw [BitVec.not_le,BitVec.lt_def] at h
    exact h
  refine ⟨hlt,BitVec.toInt_eq_toNat_of_lt (by omega),?_⟩
  exact BitVec.toNat_sub_of_le (BitVec.le_of_lt (BitVec.lt_def.mpr hlt))

/-- What a write copies ends with the request and leaves room for the terminator. -/
theorem toNat_writeCount (size : BitVec 64) : (writeCount size).toNat=min size.toNat 255 :=
  toNat_minSize size (BitVec.ofNat 64 (bufferSize-1))

/-- Small words are the same number with and without sign. -/
theorem toInt_small {x : BitVec 64} (hx : x.toNat≤255) : x.toInt=x.toNat :=
  BitVec.toInt_eq_toNat_of_lt (by omega)

/-- There are as many bytes as are counted. -/
theorem EchoDriver.length_bytes (d : EchoDriver) (first : ℤ) (count : ℕ) :
    (d.bytes first count).length=count := by
  rw [EchoDriver.bytes,List.length_map,List.length_range]

/-- The first of some bytes are bytes from the same place on. -/
theorem EchoDriver.take_bytes (d : EchoDriver) (first : ℤ) (count moved : ℕ) :
    (d.bytes first count).take moved=d.bytes first (min moved count) := by
  rw [EchoDriver.bytes,←List.map_take,List.take_range]
  rfl

/-- A read from behind the message does nothing. -/
theorem read_end {d : EchoDriver} {offset : BitVec 64} (h : d.bufferLen≤offset)
    (size : BitVec 64) (fault : Option ℕ) :
    (Call.read size offset fault).serve d=⟨0,[],none,offset,d.enter⟩ := by
  rw [Call.serve,EchoDriver.read,if_pos (show d.enter.bufferLen≤offset from h)]

/-- A read from inside the message loads what it counted, and delivers bytes
from the front of that. -/
theorem read_copies {d : EchoDriver} {offset : BitVec 64} (h : ¬d.bufferLen≤offset)
    (size : BitVec 64) (fault : Option ℕ) :
    ((Call.read size offset fault).serve d).driver=
        (d.enter.load offset.toInt (d.readCount size offset).toNat).2 ∧
      (∃ n≤(d.readCount size offset).toNat,
        ((Call.read size offset fault).serve d).delivered=d.bytes offset.toInt n) ∧
      (((Call.read size offset fault).serve d).ret=d.readCount size offset ∨
        ((Call.read size offset fault).serve d).ret=BitVec.ofInt 64 (-EFAULT)) := by
  rw [Call.serve,EchoDriver.read,if_neg (show ¬d.enter.bufferLen≤offset from h)]
  cases fault with
  | some moved => exact ⟨rfl,⟨_,Nat.min_le_right _ _,d.take_bytes _ _ moved⟩,Or.inr rfl⟩
  | none => exact ⟨rfl,⟨_,Nat.le_refl _,rfl⟩,Or.inl rfl⟩

/-- The count of a read ends with the request and with the message. -/
theorem Bounded.readCount {d : EchoDriver} (hd : Bounded d) {offset : BitVec 64}
    (h : ¬d.bufferLen≤offset) (size : BitVec 64) :
    (d.readCount size offset).toNat≤ size.toNat ∧
      offset.toNat+(d.readCount size offset).toNat≤d.bufferLen.toNat := by
  have hoffset := hd.offset h
  have hcount := toNat_minSize size (d.bufferLen-offset)
  unfold EchoDriver.readCount
  omega

/-- A read computes without wrapping around. -/
theorem read_computes {d : EchoDriver} (hd : Bounded d) (size offset : BitVec 64)
    (fault : Option ℕ) : Computes d (.read size offset fault) := by
  by_cases hend : d.bufferLen≤offset
  · refine ⟨fun h => absurd hend h,fun _ => ?_⟩
    rw [read_end hend]
    exact ⟨(Int.add_zero _).symm,fun h => absurd h (Int.lt_irrefl 0)⟩
  · obtain ⟨hlt,hint,hsub⟩ := hd.offset hend
    obtain ⟨hsize,hmessage⟩ := hd.readCount hend size
    unfold Bounded at hd
    refine ⟨fun _ => by omega,?_⟩
    rintro rfl
    have hret : ((Call.read size offset none).serve d).ret=d.readCount size offset ∧
        ((Call.read size offset none).serve d).offset=offset+d.readCount size offset := by
      rw [Call.serve,EchoDriver.read,if_neg (show ¬d.enter.bufferLen≤offset from hend)]
      exact ⟨rfl,rfl⟩
    have hsum : (offset+d.readCount size offset).toNat=
        offset.toNat+(d.readCount size offset).toNat := by
      rw [BitVec.toNat_add]
      exact Nat.mod_eq_of_lt (by omega)
    have hcount := toInt_small (x := d.readCount size offset) (by omega)
    have hnext := toInt_small (x := offset+d.readCount size offset) (by omega)
    rw [hret.1,hret.2]
    omega

/-- A read is safe. -/
theorem read_safe {d : EchoDriver} (hd : Bounded d) (size offset : BitVec 64) (fault : Option ℕ) :
    Safe d (.read size offset fault) := by
  have hcomputes := read_computes hd size offset fault
  by_cases hend : d.bufferLen≤offset
  · have hused : ((Call.read size offset fault).serve d).driver.used=[] := by
      rw [read_end hend]
      rfl
    refine ⟨?_,?_,?_,⟨0,?_,fun h => absurd h (Nat.lt_irrefl 0)⟩,?_,hcomputes⟩
    · rw [hused]
      exact nofun
    · rw [hused]
      exact nofun
    · refine Call.frame ?_
      rw [hused]
      exact nofun
    · rw [read_end hend]
      rfl
    · rw [read_end hend]
      exact ⟨Int.natCast_nonneg _,Nat.zero_le _⟩
  · obtain ⟨hdriver,⟨n,hn,hdelivered⟩,hret⟩ := read_copies hend size fault
    obtain ⟨hlt,hint,_⟩ := hd.offset hend
    obtain ⟨hsize,hmessage⟩ := hd.readCount hend size
    have hroom : bufferSize=256 := rfl
    unfold Bounded at hd
    have hused : ((Call.read size offset fault).serve d).driver.used=
        [⟨false,offset.toInt,(d.readCount size offset).toNat⟩] := by
      rw [hdriver]
      rfl
    have hlen : ((Call.read size offset fault).serve d).driver.bufferLen=d.bufferLen := by
      rw [hdriver]
      rfl
    have hinside : ∀ a∈((Call.read size offset fault).serve d).driver.used,
        0≤a.first ∧ a.first+a.count≤bufferSize := by
      rw [hused,List.forall_mem_singleton]
      dsimp only
      omega
    refine ⟨hinside,?_,Call.frame hinside,⟨n,hdelivered,fun _ => ?_⟩,⟨?_,?_⟩,hcomputes⟩
    · rw [hused,hlen,List.forall_mem_singleton]
      dsimp only
      omega
    · change 0≤offset.toInt ∧ offset.toInt+n≤d.bufferLen.toNat
      omega
    · change ((Call.read size offset fault).serve d).ret.toInt≤(size.toNat : ℤ)
      rcases hret with hret | hret
      · rw [hret,toInt_small (by omega)]
        exact Int.ofNat_le.mpr hsize
      · rw [hret]
        exact Int.le_trans (by decide) (Int.natCast_nonneg _)
    · rw [hdelivered,EchoDriver.length_bytes]
      exact Nat.le_trans hn hsize

/-- A write is safe, and leaves room for the terminator again. -/
theorem write_safe {d : EchoDriver} (hd : Bounded d) (size offset : BitVec 64)
    (user : ℕ → UInt8) (fault : Option (List UInt8)) :
    Safe d (.write size offset user fault) ∧
      Bounded ((Call.write size offset user fault).serve d).driver := by
  have hbuffer : bufferSize=256 := rfl
  have hcount := toNat_writeCount size
  have hroom : (writeCount size).toNat≤255 := by omega
  have hsize : (writeCount size).toNat≤ size.toNat := by omega
  cases fault with
  | some garbage =>
    have hinside : ∀ a∈((Call.write size offset user (some garbage)).serve d).driver.used,
        0≤a.first ∧ a.first+a.count≤bufferSize := by
      change ∀ a∈[_],_
      rw [List.forall_mem_singleton]
      dsimp only
      omega
    refine ⟨⟨hinside,?_,Call.frame hinside,⟨0,rfl,fun h => absurd h (Nat.lt_irrefl 0)⟩,
      ⟨?_,Nat.zero_le _⟩,trivial⟩,hd⟩
    · change ∀ a∈[_],_
      rw [List.forall_mem_singleton]
      exact nofun
    · change (BitVec.ofInt 64 (-EFAULT)).toInt≤(size.toNat : ℤ)
      exact Int.le_trans (by decide) (Int.natCast_nonneg _)
  | none =>
    -- The message is loaded for the log, the terminator and the message are stored.
    have hused : ((Call.write size offset user none).serve d).driver.used=
        [⟨false,0,(writeCount size).toNat⟩,
          ⟨true,(writeCount size).toNat,1⟩,
          ⟨true,0,(writeCount size).toNat⟩] := rfl
    have hinside : ∀ a∈((Call.write size offset user none).serve d).driver.used,
        0≤a.first ∧ a.first+a.count≤bufferSize := by
      rw [hused,List.forall_mem_cons,List.forall_mem_cons,List.forall_mem_singleton]
      dsimp only
      omega
    refine ⟨⟨hinside,?_,Call.frame hinside,⟨0,rfl,fun h => absurd h (Nat.lt_irrefl 0)⟩,
      ⟨?_,Nat.zero_le _⟩,trivial⟩,hroom⟩
    · rw [hused,List.forall_mem_cons,List.forall_mem_cons,List.forall_mem_singleton]
      refine ⟨fun _ => ?_,nofun,nofun⟩
      change (0 : ℤ)+((writeCount size).toNat : ℤ)≤
        (writeCount size).toNat
      omega
    · change (writeCount size).toInt≤(size.toNat : ℤ)
      rw [toInt_small hroom]
      exact Int.ofNat_le.mpr hsize

/-- Every call is safe and keeps the bound. -/
theorem Bounded.serve {d : EchoDriver} (hd : Bounded d) (c : Call) :
    Safe d c ∧ Bounded (c.serve d).driver := by
  cases c with
  | read size offset fault =>
    refine ⟨read_safe hd size offset fault,?_⟩
    by_cases hend : d.bufferLen≤offset
    · rw [read_end hend]
      exact hd
    · rw [(read_copies hend size fault).1]
      exact hd
  | write size offset user fault => exact write_safe hd size offset user fault

/-- In every run of calls with any sizes, offsets and faults, the length stays
below the buffer's size and every call is safe. -/
theorem calls_safe (around : ℤ → UInt8) (calls : List Call) :
    Along step Bounded (EchoDriver.new around) calls ∧
      Guarded step Safe (EchoDriver.new around) calls := by
  have hnew : Bounded (EchoDriver.new around) := Nat.zero_le _
  have hstep : ∀ {d : EchoDriver} {c : Call} {e : EchoDriver},
      Bounded d → step d c=some e → Bounded e := by
    rintro d c _ hd ⟨⟩
    exact (hd.serve c).2
  exact ⟨along_of_preserved (fun h => h) hstep hnew,
    guarded_of_preserved (fun hd _ => (hd.serve _).1) hstep hnew⟩

/-- The call on the driver whose buffer has its size. -/
def Call.counted : Call → EchoCalls.Call
  | .read size _ fault => .read size.toNat fault
  | .write size _ user fault => .write ((List.range size.toNat).map user) fault

/-- Same length, and the same bytes in the buffer. -/
structure Represents (w : EchoDriver) (d : EchoCalls.EchoDriver) : Prop where
  /-- `buffer_len_`. -/
  length : w.bufferLen.toNat=d.bufferLen
  /-- `buffer_`. -/
  bytes : ∀ i : ℕ,i<bufferSize → d.buffer[i]?=some (w.memory i)

variable {w : EchoDriver} {d : EchoCalls.EchoDriver}

/-- The length of a represented driver is bounded. -/
theorem Represents.bounded (hr : Represents w d) : Bounded w := by
  have hlt : (d.bufferLen : ℕ)<256 := d.bufferLen.isLt
  have hlen := hr.length
  unfold Bounded
  omega

/-- Bytes inside the buffer are those of the represented one. -/
theorem Represents.slice (hr : Represents w d) (first count : ℕ) (hin : first+count≤bufferSize) :
    w.bytes first count=(d.buffer.drop first).take count := by
  apply List.ext_getElem?
  intro i
  rw [EchoDriver.bytes,List.getElem?_map,List.getElem?_take,List.getElem?_drop]
  by_cases hi : i<count
  · rw [List.getElem?_range hi,if_pos hi,hr.bytes (first+i) (by omega)]
    rfl
  · rw [if_neg hi,List.getElem?_eq_none (by rw [List.length_range]; omega)]
    rfl

/-- Stores at the front of the buffer keep the representation. -/
theorem Represents.store (hr : Represents w d) {count : ℕ} {bytes : List UInt8}
    (hb : (bytes.take count).length≤bufferSize) :
    Represents (w.store 0 count bytes) (d.copyIn (bytes.take count)) := by
  refine ⟨hr.length,fun i hi => ?_⟩
  rw [EchoStream.copyIn_getElem? d hb]
  dsimp only [EchoDriver.store]
  generalize bytes.take count=stored
  rw [Int.zero_add,Int.sub_zero]
  by_cases hlt : i<stored.length
  · rw [if_pos hlt,if_pos ⟨Int.natCast_nonneg i,Int.ofNat_lt.mpr hlt⟩,Int.toNat_natCast,
      List.getD_eq_getElem?_getD,List.getElem?_eq_getElem hlt,Option.getD_some]
  · rw [if_neg hlt,if_neg (fun h => hlt (Int.ofNat_lt.mp h.2))]
    exact hr.bytes i hi

/-- The beginning of a call keeps the representation. -/
theorem Represents.enter (hr : Represents w d) : Represents w.enter d := ⟨hr.length,hr.bytes⟩

/-- Loads keep the representation. -/
theorem Represents.load (hr : Represents w d) (first : ℤ) (count : ℕ) :
    Represents (w.load first count).2 d := ⟨hr.length,hr.bytes⟩

/-- A terminated message keeps the representation. -/
theorem Represents.terminate (hr : Represents w d) {count : BitVec 64} {n : Fin bufferSize}
    (hn : count.toNat=n) :
    Represents (w.terminate count) (d.setLen n).terminate := by
  refine ⟨hn,fun i hi => ?_⟩
  change (d.buffer.set n 0)[i]?=some
    (if (count.toNat : ℤ)≤ i ∧ (i : ℤ)<count.toNat+(1 : ℕ) then
      [0].getD ((i : ℤ)-count.toNat).toNat 0 else w.memory i)
  rw [hn]
  by_cases he : i=n
  · rw [he,if_pos (by omega),Int.sub_self,
      List.getElem?_set_self (by rw [d.sized]; exact n.isLt)]
    rfl
  · rw [if_neg (by omega),List.getElem?_set_ne (Ne.symm he)]
    exact hr.bytes i hi

/-- On words a call does what it does on the buffer with its size. -/
theorem Represents.serve (hr : Represents w d) (c : Call) :
    (c.serve w).ret.toInt=(c.counted.serve d c.offset).1.ret ∧
      (c.serve w).delivered=(c.counted.serve d c.offset).1.delivered ∧
      (c.serve w).logged=(c.counted.serve d c.offset).1.logged ∧
      (c.serve w).offset=(c.counted.serve d c.offset).2.2 ∧
      Represents (c.serve w).driver (c.counted.serve d c.offset).2.1 := by
  have hroom : bufferSize=256 := rfl
  have hlen := hr.length
  have hbounded := hr.bounded
  cases c with
  | read size offset fault =>
    change (w.enter.read size offset fault).ret.toInt=(d.read size.toNat fault offset).1.ret ∧
      (w.enter.read size offset fault).delivered=(d.read size.toNat fault offset).1.delivered ∧
      (w.enter.read size offset fault).logged=(d.read size.toNat fault offset).1.logged ∧
      (w.enter.read size offset fault).offset=(d.read size.toNat fault offset).2.2 ∧
      Represents (w.enter.read size offset fault).driver (d.read size.toNat fault offset).2.1
    by_cases hend : w.bufferLen≤offset
    · have hstop : (d.bufferLen : ℕ)≤offset.toNat := by
        rw [BitVec.le_def] at hend
        omega
      rw [EchoDriver.read,if_pos (show w.enter.bufferLen≤offset from hend),
        EchoCalls.EchoDriver.read,if_pos hstop]
      exact ⟨rfl,rfl,rfl,rfl,hr.enter⟩
    · obtain ⟨hlt,hint,hsub⟩ := hbounded.offset hend
      have hcount : (w.readCount size offset).toNat=
          min size.toNat (d.bufferLen-offset.toNat) := by
        rw [EchoDriver.readCount,toNat_minSize,hsub,hlen]
      have hsmall := hbounded.readCount hend size
      unfold Bounded at hbounded
      have hbytes := hr.enter.slice offset.toNat (w.readCount size offset).toNat (by omega)
      have hret := toInt_small (x := w.readCount size offset) (by omega)
      have hdriver := hr.enter.load offset.toInt (w.readCount size offset).toNat
      rw [EchoDriver.read,if_neg (show ¬w.enter.bufferLen≤offset from hend),
        EchoCalls.EchoDriver.read,if_neg (by omega),←hcount]
      unfold EchoCalls.EchoDriver.copyOut
      rw [←hbytes,←hint]
      cases fault with
      | some moved => exact ⟨rfl,rfl,rfl,rfl,hdriver⟩
      | none =>
        refine ⟨hret,rfl,rfl,?_,hdriver⟩
        dsimp only
        rw [BitVec.ofNat_toNat,BitVec.setWidth_eq]
        rfl
  | write size offset user fault =>
    have hword := toNat_writeCount size
    have hcount : (writeCount size).toNat=
        EchoCalls.writeCount ((List.range size.toNat).map user).length := by
      rw [hword,List.length_map,List.length_range]
      rfl
    cases fault with
    | some garbage =>
      refine ⟨rfl,rfl,rfl,rfl,?_⟩
      change Represents (w.enter.store 0 _ garbage) (d.copyIn (garbage.take _))
      rw [hcount]
      refine hr.enter.store ?_
      rw [List.length_take]
      exact Nat.le_trans (Nat.min_le_left _ _) (Nat.le_of_lt (Fin.isLt _))
    | none =>
      have hfront : ((List.range size.toNat).map user).take (writeCount size).toNat=
          ((List.range (writeCount size).toNat).map user).take (writeCount size).toNat := by
        rw [←List.map_take,←List.map_take,List.take_range,List.take_range,Nat.min_self,
          Nat.min_eq_left (by omega)]
      have hended : Represents ((w.enter.store 0 (writeCount size).toNat
          ((List.range (writeCount size).toNat).map user)).terminate (writeCount size))
          ((d.copyIn (((List.range size.toNat).map user).take
            (EchoCalls.writeCount ((List.range size.toNat).map user).length))).setLen
              (EchoCalls.writeCount ((List.range size.toNat).map user).length)).terminate := by
        rw [←hcount,hfront]
        refine (hr.enter.store ?_).terminate hcount
        rw [List.length_take,List.length_map,List.length_range]
        omega
      have hlogged := hended.slice 0 (writeCount size).toNat (by omega)
      refine ⟨?_,rfl,?_,rfl,hended.load _ _⟩
      · change (writeCount size).toInt=_
        rw [toInt_small (by omega),hcount]
        rfl
      · rw [List.drop_zero] at hlogged
        refine congrArg some (hlogged.trans ?_)
        rw [hcount]
        rfl

end Kpp.EchoWords
