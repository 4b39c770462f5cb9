import Kpp.PrintfFormats

/-!
# Logging through printk

`kpp::log` prints its level, then a space and an argument for each argument,
then a newline. The space is the argument of a format, the others are formats
themselves.
-/

namespace Kpp.KernelLog

open CStrings PrintfFormats

/-- A C string, without its NUL. -/
structure CString where
  /-- Its bytes. -/
  bytes : List UInt8
  /-- None of them is NUL. -/
  noNul : (0 : UInt8)∉bytes

/-- `printk`: the bytes that it emits for a format and its arguments. -/
def printk (fmt : CString) (args : List CString) : Option (List UInt8) :=
  format .text fmt.bytes (args.map CString.bytes)

/-- The strings `"%s"`, `" "` and `"\n"`. -/
def stringFormat : CString := ⟨[37,115],by decide⟩
def space : CString := ⟨[32],by decide⟩
def newline : CString := ⟨[10],by decide⟩

/-- `((printk("%s", " "), printk(args)), ...)`. -/
def logArgs : List CString → Option (List UInt8)
  | [] => some []
  | arg::args =>
    (printk stringFormat [space]).bind (fun gap => (printk arg []).bind (fun text =>
      (logArgs args).map (fun rest => gap++text++rest)))

/-- `kpp::log<LogLevel>(args...)`: the bytes that it emits, `none` when a
directive asks for more than its strings. -/
def log (logLevel : CString) (args : List CString) : Option (List UInt8) :=
  (printk logLevel []).bind (fun level => (logArgs args).bind (fun text =>
    (printk newline []).map (fun last => level++text++last)))

/-- A space and the bytes of the argument, for each argument. -/
def verbatimArgs (args : List CString) : List UInt8 :=
  args.flatMap (fun arg => space.bytes++arg.bytes)

/-- The level, the arguments and a newline, as they are. -/
def verbatim (logLevel : CString) (args : List CString) : List UInt8 :=
  logLevel.bytes++verbatimArgs args++newline.bytes

/-- Neither the level nor an argument has a percent sign. -/
def NoPercent (logLevel : CString) (args : List CString) : Prop :=
  percent∉logLevel.bytes ∧ ∀ arg∈args,percent∉arg.bytes

/-- The space is printed as it is. -/
theorem printk_space : printk stringFormat [space]=some space.bytes := rfl

/-- The newline is printed as it is. -/
theorem printk_newline : printk newline []=some newline.bytes := rfl

/-- Arguments without percent signs are printed as they are. -/
theorem logArgs_verbatim {args : List CString} (h : ∀ arg∈args,percent∉arg.bytes) :
    logArgs args=some (verbatimArgs args) := by
  induction args with
  | nil => rfl
  | cons arg args ih =>
    have harg : printk arg []=some arg.bytes := format_text (h arg List.mem_cons_self) []
    have hrest := ih (fun other hother => h other (List.mem_cons_of_mem arg hother))
    simp only [logArgs,printk_space,harg,hrest,Option.bind_some,Option.map_some]
    rfl

/-- Arguments are printed in as many bytes as they have only without percent
signs, and never in more. -/
theorem logArgs_length {args : List CString} {text : List UInt8} (h : logArgs args=some text) :
    text.length≤(verbatimArgs args).length ∧
      (text.length=(verbatimArgs args).length → ∀ arg∈args,percent∉arg.bytes) := by
  induction args generalizing text with
  | nil =>
    obtain rfl := Option.some.inj h
    exact ⟨Nat.le_refl 0,fun _ => nofun⟩
  | cons arg args ih =>
    simp only [logArgs,printk_space,Option.bind_some,Option.bind_eq_some_iff,
      Option.map_eq_some_iff] at h
    obtain ⟨out,hout,rest,hrest,rfl⟩ := h
    have harg := format_length hout
    have hargs := ih hrest
    have hlength : (verbatimArgs (arg::args)).length=
        space.bytes.length+arg.bytes.length+(verbatimArgs args).length := by
      simp only [verbatimArgs,List.flatMap_cons,List.length_append]
    rw [hlength]
    simp only [List.length_append]
    refine ⟨by omega,fun hsame => ?_⟩
    intro other hother hp
    rcases List.mem_cons.mp hother with rfl | hother
    · have hless := harg.2 rfl hp
      omega
    · exact hargs.2 (by omega) other hother hp

/-- Verbatim logging. The level, a space and the bytes of each argument, and
one newline are emitted, and nothing else is read, exactly when neither the
level nor an argument has a percent sign. -/
theorem log_verbatim_iff (logLevel : CString) (args : List CString) :
    log logLevel args=some (verbatim logLevel args) ↔ NoPercent logLevel args := by
  constructor
  · intro h
    simp only [log,printk_newline,Option.bind_eq_some_iff,Option.map_some,Option.some.injEq] at h
    obtain ⟨level,hlevel,text,htext,hsame⟩ := h
    have hl := format_length hlevel
    have ht := logArgs_length htext
    have htotal := congrArg List.length hsame
    simp only [verbatim,List.length_append] at htotal
    refine ⟨fun hp => ?_,ht.2 (by omega)⟩
    have hless := hl.2 rfl hp
    omega
  · intro h
    have hlevel : printk logLevel []=some logLevel.bytes := format_text h.1 []
    simp only [log,hlevel,logArgs_verbatim h.2,printk_newline,Option.bind_some,Option.map_some]
    rfl

/-- `KERN_INFO`. -/
def kernInfo : CString := ⟨[1,54],by decide⟩

/-- An argument `100%%` loses a percent sign, and an argument `%s` reads a
string that is not there. -/
theorem percent_not_verbatim :
    log kernInfo [⟨[49,48,48,37,37],by decide⟩]=some [1,54,32,49,48,48,37,10] ∧
      verbatim kernInfo [⟨[49,48,48,37,37],by decide⟩]=[1,54,32,49,48,48,37,37,10] ∧
      log kernInfo [⟨[49,48,48,37,37],by decide⟩]≠
        some (verbatim kernInfo [⟨[49,48,48,37,37],by decide⟩]) ∧
      log kernInfo [⟨[37,115],by decide⟩]=none := ⟨rfl,rfl,by decide,rfl⟩

end Kpp.KernelLog
