import Kpp.EchoCalls
import Mathlib.Data.List.Flatten
import Mathlib.Tactic.Common

/-!
# Readers receive the message that was written

Whole calls of the echo driver run one after another. After a successful
write the driver is a byte sequence for its readers: a read takes the next
bytes behind the reader's offset, whatever the other readers do.
-/

namespace Kpp.EchoStream

open CriticalSections EchoCalls

section Slices
variable {α : Type*}

/-- Reads of so many elements each, one after another, from a sequence. -/
def slices : List α → List ℕ → List (List α)
  | _,[] => []
  | rest,n::ns => rest.take n::slices (rest.drop n) ns

/-- Together the reads give the front of the sequence. -/
theorem slices_prefix (rest : List α) (ns : List ℕ) : (slices rest ns).flatten<+:rest := by
  induction ns generalizing rest with
  | nil => exact List.nil_prefix
  | cons n ns ih =>
    have h := (List.prefix_append_right_inj (rest.take n)).mpr (ih (rest.drop n))
    rwa [List.take_append_drop] at h

/-- There is one slice for each read. -/
theorem slices_length (rest : List α) (ns : List ℕ) : (slices rest ns).length=ns.length := by
  induction ns generalizing rest with
  | nil => rfl
  | cons n ns ih => rw [slices,List.length_cons,ih,List.length_cons]

/-- Each read that gets something uses up at least one element. -/
theorem slices_nonempty (rest : List α) (ns : List ℕ) :
    (slices rest ns).countP (fun s => !s.isEmpty)≤rest.length := by
  induction ns generalizing rest with
  | nil => exact Nat.zero_le _
  | cons n ns ih =>
    have hrest := ih (rest.drop n)
    rw [List.length_drop] at hrest
    rw [slices,List.countP_cons]
    by_cases h : rest.take n=[]
    · simp only [h,List.isEmpty_nil,Bool.not_true,Bool.false_eq_true,if_false]
      omega
    · have hpos : 0< min n rest.length := by
        rw [←List.length_take]
        exact List.length_pos_iff.mpr h
      split <;> omega

/-- Nothing is left of an empty sequence. -/
theorem slices_nil (ns : List ℕ) : ∀ s∈slices ([] : List α) ns,s=[] := by
  induction ns with
  | nil => simp [slices]
  | cons n ns ih => simpa [slices] using ih

/-- A positive read that gets nothing comes after the whole sequence, and so
does every read behind it. -/
theorem slices_end {ns : List ℕ} (hns : ∀ n∈ns,0<n) {rest : List α} {front back : List (List α)}
    (h : slices rest ns=front++[]::back) : front.flatten=rest ∧ ∀ s∈back,s=[] := by
  induction ns generalizing rest front with
  | nil => simp [slices] at h
  | cons n ns ih =>
    rw [slices] at h
    cases front with
    | nil =>
      obtain ⟨hnow,hback⟩ := List.cons_eq_cons.mp h
      have hn := hns n List.mem_cons_self
      obtain rfl : rest=[] := by
        rcases List.take_eq_nil_iff.mp hnow with hzero | hnil
        · omega
        · exact hnil
      refine ⟨rfl,?_⟩
      rw [←hback,List.drop_nil]
      exact slices_nil ns
    | cons s front =>
      obtain ⟨hnow,hlater⟩ := List.cons_eq_cons.mp h
      obtain ⟨hflat,hback⟩ := ih (fun k hk => hns k (List.mem_cons_of_mem _ hk)) hlater
      refine ⟨?_,hback⟩
      rw [List.flatten_cons,hflat,←hnow,List.take_append_drop]

end Slices

/-- What a read that delivers these bytes returns. -/
def answer (bytes : List UInt8) : Result := ⟨bytes.length,bytes,none⟩

/-- The message is as long as `buffer_len_` says. -/
@[simp] theorem content_length (d : EchoDriver) : d.content.length=d.bufferLen := by
  have hs := d.sized
  have hb := d.bufferLen.isLt
  simp only [EchoDriver.content,List.length_take]
  omega

/-- A copy of at most the buffer's size replaces its first bytes. -/
theorem copyIn_getElem? (d : EchoDriver) {bytes : List UInt8} (hb : bytes.length≤bufferSize)
    (i : ℕ) : (d.copyIn bytes).buffer[i]?=if i<bytes.length then bytes[i]? else d.buffer[i]? := by
  have hsize : (d.copyIn bytes).buffer=bytes++d.buffer.drop bytes.length := by
    refine List.take_of_length_le ?_
    have h := d.sized
    rw [List.length_append,List.length_drop]
    omega
  rw [hsize,List.getElem?_append]
  split
  · rfl
  · next hi =>
    rw [List.getElem?_drop]
    congr 1
    omega

/-- A read leaves the driver alone. -/
theorem read_driver (d : EchoDriver) (size : ℕ) (fault : Option ℕ) (offset : BitVec 64) :
    (d.read size fault offset).2.1=d := by
  unfold EchoDriver.read
  split
  · rfl
  · cases fault <;> rfl

/-- A read whose copy succeeds takes the next bytes of the message. -/
theorem read_next {d : EchoDriver} {offset : BitVec 64} (h : offset.toNat≤d.bufferLen) (size : ℕ) :
    ∃ next : BitVec 64,d.read size none offset=
        (answer ((d.content.drop offset.toNat).take size),d,next) ∧
      next.toNat≤d.bufferLen ∧
      d.content.drop next.toNat=(d.content.drop offset.toNat).drop size := by
  have hb : (d.bufferLen : ℕ)<256 := d.bufferLen.isLt
  by_cases hend : (d.bufferLen : ℕ)≤offset.toNat
  · have hnil : d.content.drop offset.toNat=[] := by
      rw [List.drop_eq_nil_iff,content_length]
      exact hend
    refine ⟨offset,?_,h,?_⟩
    · rw [hnil,List.take_nil]
      simp only [EchoDriver.read,hend,if_true]
      rfl
    · rw [hnil,List.drop_nil]
  · -- the slice is cut off at `buffer_len_`, by the count here and in the message
    have hbytes : (d.content.drop offset.toNat).take size=
        (d.buffer.drop offset.toNat).take (min size (d.bufferLen-offset.toNat)) := by
      rw [EchoDriver.content,List.drop_take,List.take_take]
    have hlength : ((d.content.drop offset.toNat).take size).length=
        min size (d.bufferLen-offset.toNat) := by
      rw [List.length_take,List.length_drop,content_length]
    have hnext : (offset+BitVec.ofNat 64 (min size (d.bufferLen-offset.toNat))).toNat=
        offset.toNat+min size (d.bufferLen-offset.toNat) := by
      rw [BitVec.toNat_add,BitVec.toNat_ofNat]
      omega
    refine ⟨offset+BitVec.ofNat 64 (min size (d.bufferLen-offset.toNat)),?_,?_,?_⟩
    · simp only [EchoDriver.read,EchoDriver.copyOut,hend,if_false,answer,hlength]
      rw [hbytes]
    · rw [hnext]
      omega
    · rw [hnext,List.drop_drop]
      by_cases hcut : size≤d.bufferLen-offset.toNat
      · rw [Nat.min_eq_left hcut]
      · rw [List.drop_eq_nil_of_le,List.drop_eq_nil_of_le] <;> rw [content_length] <;> omega

/-- A successful write leaves the message, cut off behind the terminator's
place, and the writer's offset at its start. -/
theorem write_content (d : EchoDriver) (message : List UInt8) (offset : BitVec 64) :
    (d.write message none offset).2.1.content=message.take (bufferSize-1) ∧
      (d.write message none offset).2.2=0 := by
  refine ⟨?_,rfl⟩
  have hcount : (writeCount message.length : ℕ)=min (bufferSize-1) message.length :=
    Nat.min_comm _ _
  have hfront : message.take (writeCount message.length)=message.take (bufferSize-1) := by
    rw [hcount,←List.take_eq_take_min]
  have hlength : (message.take (bufferSize-1)).length=
      min (writeCount message.length : ℕ) bufferSize := by
    rw [List.length_take,hcount]
    omega
  change (((message.take (writeCount message.length)++_).take bufferSize).set
    (writeCount message.length) 0).take (writeCount message.length)=_
  rw [List.take_set_of_le (Nat.le_refl _),List.take_take,hfront,List.take_left' hlength]

variable {T : Type*} [DecidableEq T]

/-- Whole calls of the threads on the driver. -/
abbrev Calls (T : Type*) := Serial T EchoDriver (BitVec 64) Result

/-- A read of so many bytes whose copy succeeds. -/
def readCall (read : T×ℕ) : T×Call := (read.1,.read read.2 none)

/-- The reads of a reader, among those of all readers, take slices of what
lies behind its offset. -/
theorem reads_slices {x : Calls T} {t : T} (reads : List (T×ℕ))
    (h : (x.locals t).toNat≤x.shared.bufferLen) :
    (x.run echo (reads.map readCall)).results t=x.results t++
      (slices (x.shared.content.drop (x.locals t).toNat) (callsOf t reads)).map answer := by
  induction reads generalizing x with
  | nil => simp [Serial.run,callsOf,slices]
  | cons read reads ih =>
    have hdriver : (x.serve echo (readCall read)).shared=x.shared :=
      read_driver x.shared read.2 none (x.locals read.1)
    have hcalls : (x.run echo ((read::reads).map readCall))=
        (x.serve echo (readCall read)).run echo (reads.map readCall) := rfl
    by_cases hu : read.1=t
    · obtain ⟨next,hread,hle,hrest⟩ := read_next h read.2
      have hserve : x.serve echo (readCall read)=⟨x.shared,Function.update x.locals t next,
          Function.update x.results t (x.results t++
            [answer ((x.shared.content.drop (x.locals t).toNat).take read.2)])⟩ := by
        simp only [Serial.serve,readCall,echo,Call.serve,hu,hread]
      rw [hcalls,hserve,ih]
      · simp [callsOf,hu,slices,hrest]
      · simpa using hle
    · have hlocals : (x.serve echo (readCall read)).locals t=x.locals t :=
        Function.update_of_ne (Ne.symm hu) _ _
      have hresults : (x.serve echo (readCall read)).results t=x.results t :=
        Function.update_of_ne (Ne.symm hu) _ _
      rw [hcalls,ih,hdriver,hlocals,hresults]
      · simp [callsOf,hu]
      · rw [hdriver,hlocals]
        exact h

/-- What a reader gets of a message, over all its reads so far. -/
structure Echoes (message : List UInt8) (answers : List Result) : Prop where
  /-- A read returns the number of bytes it delivers. -/
  counted : ∀ a∈answers,a.ret=a.delivered.length
  /-- The delivered bytes are consecutive, from the start of the message. -/
  consecutive : (answers.map Result.delivered).flatten<+:message.take (bufferSize-1)
  /-- There are at most as many non-empty reads as bytes. -/
  bounded : answers.countP (fun a => decide (a.ret≠0))≤ min message.length (bufferSize-1)
  /-- With one more read than bytes some read is a read of 0. -/
  reached : min message.length (bufferSize-1)<answers.length → ∃ a∈answers,a.ret=0
  /-- A read of 0 comes after the whole message, and every later one is a read of 0. -/
  ended : ∀ {front back : List Result} {a : Result},answers=front++a::back → a.ret=0 →
    (front.map Result.delivered).flatten=message.take (bufferSize-1) ∧
      ∀ b∈back,b.ret=0 ∧ b.delivered=[]

/-- An answer returns 0 if it delivers nothing. -/
@[simp] theorem answer_ret (bytes : List UInt8) : (answer bytes).ret=0 ↔ bytes=[] := by
  simp [answer]

/-- Answers deliver the slices they are made of. -/
@[simp] theorem answers_delivered (parts : List (List UInt8)) :
    (parts.map answer).map Result.delivered=parts := by
  rw [List.map_map]
  exact List.map_id parts

/-- At most as many slices as bytes are not empty. -/
theorem answers_bounded (message : List UInt8) (ns : List ℕ) :
    ((slices (message.take (bufferSize-1)) ns).map answer).countP (fun a => decide (a.ret≠0))≤
      min message.length (bufferSize-1) := by
  have h := slices_nonempty (message.take (bufferSize-1)) ns
  rw [List.length_take,Nat.min_comm] at h
  rw [List.countP_map]
  refine Nat.le_trans (List.countP_mono_left ?_) h
  intro s _ hs
  simpa using hs

/-- Slices of the message that was written echo it. -/
theorem slices_echo (message : List UInt8) {ns : List ℕ} (hns : ∀ n∈ns,0<n) :
    Echoes message ((slices (message.take (bufferSize-1)) ns).map answer) where
  counted := by
    intro a ha
    obtain ⟨bytes,-,rfl⟩ := List.mem_map.mp ha
    rfl
  consecutive := by
    rw [answers_delivered]
    exact slices_prefix _ ns
  bounded := answers_bounded message ns
  reached := by
    intro hmany
    by_contra hnone
    have hall : ∀ a∈(slices (message.take (bufferSize-1)) ns).map answer,
        decide (a.ret≠0)=true := by
      intro a ha
      rw [decide_eq_true_eq]
      intro hzero
      exact hnone ⟨a,ha,hzero⟩
    have hbounded := answers_bounded message ns
    rw [List.countP_eq_length.mpr hall] at hbounded
    omega
  ended := by
    intro front back a h ha
    obtain ⟨parts,rest,hsplit,hfront,hrest⟩ := List.map_eq_append_iff.mp h
    obtain ⟨part,later,rfl,hpart,hback⟩ := List.map_eq_cons_iff.mp hrest
    subst hfront hpart hback
    obtain rfl := (answer_ret part).mp ha
    obtain ⟨hflat,hlater⟩ := slices_end hns hsplit
    refine ⟨by rw [answers_delivered,hflat],?_⟩
    intro b hb
    obtain ⟨bytes,hbytes,rfl⟩ := List.mem_map.mp hb
    obtain rfl := hlater bytes hbytes
    exact ⟨rfl,rfl⟩

/-- The state after a history of calls and a successful write. -/
def afterWrite (driver : EchoDriver) (offsets : T → BitVec 64) (history : List (T×Call))
    (writer : T) (message : List UInt8) : Calls T :=
  (Serial.start driver offsets).run echo (history++[(writer,.write message none)])

/-- A successful write makes the message what is read, from the writer's own
offset too. -/
theorem afterWrite_content (driver : EchoDriver) (offsets : T → BitVec 64)
    (history : List (T×Call)) (writer : T) (message : List UInt8) :
    (afterWrite driver offsets history writer message).shared.content=
        message.take (bufferSize-1) ∧
      (afterWrite driver offsets history writer message).locals writer=0 := by
  unfold afterWrite
  rw [Serial.run_append]
  have h := write_content ((Serial.start driver offsets).run echo history).shared message
    (((Serial.start driver offsets).run echo history).locals writer)
  exact ⟨h.1,by simpa [Serial.serve,echo,Call.serve] using h.2⟩

/-- After any history that ends with a successful write, each reader at offset
0 receives the message in consecutive slices, whatever the others read, and
the writer's offset is 0. -/
theorem written_message_echoed (driver : EchoDriver) (offsets : T → BitVec 64)
    (history : List (T×Call)) (writer : T) (message : List UInt8) (reads : List (T×ℕ))
    (hpositive : ∀ read∈reads,0<read.2) :
    (afterWrite driver offsets history writer message).locals writer=0 ∧
      ∀ reader,(afterWrite driver offsets history writer message).locals reader=0 →
        ∃ answers,((afterWrite driver offsets history writer message).run echo
            (reads.map readCall)).results reader=
              (afterWrite driver offsets history writer message).results reader++answers ∧
          answers.length=(callsOf reader reads).length ∧ Echoes message answers := by
  obtain ⟨hcontent,hwriter⟩ := afterWrite_content driver offsets history writer message
  refine ⟨hwriter,?_⟩
  intro reader hreader
  have hrun := reads_slices (x := afterWrite driver offsets history writer message) reads
    (by rw [hreader]; exact Nat.zero_le _ : _ ≤ _)
  rw [hreader,hcontent] at hrun
  refine ⟨_,hrun,?_,?_⟩
  · rw [List.length_map,slices_length]
  · refine slices_echo message ?_
    intro n hn
    obtain ⟨read,hread,rfl⟩ := List.mem_map.mp hn
    exact hpositive read (List.mem_filter.mp hread).1

/-- Two readers at once: the writer's own descriptor and another one, after a
longer message. -/
theorem written_message_echoed_shared_offset :
    (∀ read∈[(true,1),(false,5),(true,7),(true,3)],0<read.2) ∧
    ∃ answers,((afterWrite EchoDriver.new (fun _ : Bool => 0)
        [(false,.write [1,2,3,4,5] none),(true,.read 2 none)] true [104,105,33]).run echo
          ([(true,1),(false,5),(true,7),(true,3)].map readCall)).results true=
            (afterWrite EchoDriver.new (fun _ : Bool => 0)
              [(false,.write [1,2,3,4,5] none),(true,.read 2 none)] true
                [104,105,33]).results true++answers ∧
      answers.length=3 ∧ Echoes [104,105,33] answers := by
  have hpositive : ∀ read∈[(true,1),(false,5),(true,7),(true,3)],0<read.2 := by decide
  have h := written_message_echoed EchoDriver.new (fun _ : Bool => 0)
    [(false,.write [1,2,3,4,5] none),(true,.read 2 none)] true [104,105,33]
    [(true,1),(false,5),(true,7),(true,3)] hpositive
  exact ⟨hpositive,h.2 true h.1⟩

end Kpp.EchoStream
