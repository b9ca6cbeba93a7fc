import InstructionParser.Proof.CommandBounds
import InstructionParser.Proof.Framing
import InstructionParser.Proof.Pipeline
import InstructionParser.Proof.ResponseCode

/-!
# A date there and back

The reply to a `set_date` query and the payload of a `set_date` request have the same layout, so a client
can hand a date back as it got it. On the way it is printed into two lines for the shell, which reads
the same numbers in them as long as each fits the bytes that carry it.
-/

namespace InstructionParser

open CLib

/-- The numbers of a word, any of the bytes `seps` between them. -/
def numbers (seps word : Bytes) : List Nat := (word.splitOnP fun b => b ∈ seps).map digitsValue

/-- The date in a line that the shell reads as a call of `hisi_hwclock`. -/
def clockDate (line : Bytes) : Option (List Nat) :=
  match Shell.fields line with
  | some [program, option, field, word] =>
      if program = ascii "hisi_hwclock" ∧ option = ascii "-s" ∧ field = ascii "time" then
        some (numbers (ascii "/") word)
      else none
  | _ => none

/-- The date in a line that the shell reads as a call of `date`. -/
def stampDate (line : Bytes) : Option (List Nat) :=
  match Shell.fields line with
  | some [program, option, word] =>
      if program = ascii "date" ∧ option = ascii "-s" then some (numbers (ascii "- :") word) else none
  | _ => none

/-- What is handed to the shell. -/
def shellLines (events : List Event) : List Bytes :=
  events.filterMap fun
    | .system line => some line
    | _ => none

/-- The lines set a date: the hardware clock, and when that succeeds the system's. Each fits `cmd`. -/
structure SetsDate (env : Env) (lines : List Bytes) (date : List Int) : Prop where
  clock : (lines[0]?.bind clockDate).map (·.map Int.ofNat) = some date
  stamp : env.system 0 = 0 → (lines[1]?.bind stampDate).map (·.map Int.ofNat) = some date
  count : lines.length = if env.system 0 = 0 then 2 else 1
  fits : ∀ line ∈ lines, line.length < 64

namespace TimeOfDay

/-- Year, month, day, hour, minute and second. -/
def date (now : TimeOfDay) : List Int :=
  [now.tmYear + 1900, now.tmMon + 1, now.tmMday, now.tmHour, now.tmMin, now.tmSec]

/-- Each number fits the bytes that carry it. -/
structure InRange (now : TimeOfDay) : Prop where
  year : 0 ≤ now.tmYear + 1900 ∧ now.tmYear + 1900 < 2 ^ 16
  mon : 0 ≤ now.tmMon + 1 ∧ now.tmMon + 1 < 2 ^ 8
  mday : 0 ≤ now.tmMday ∧ now.tmMday < 2 ^ 8
  hour : 0 ≤ now.tmHour ∧ now.tmHour < 2 ^ 8
  min : 0 ≤ now.tmMin ∧ now.tmMin < 2 ^ 8
  sec : 0 ≤ now.tmSec ∧ now.tmSec < 2 ^ 8

end TimeOfDay

/-- A `set_date` request of either protocol. -/
inductive DateRequest (p : Bytes) : WireFrame → Prop where
  | ht (frameId : UInt16) : DateRequest p (.ht frameId 0x0101 p)
  | sl (frameId : UInt16) (dir : UInt8) (deviceId : UInt32) :
      DateRequest p (.sl frameId 0x0101 dir deviceId p)

variable {env : Env} {st : Statics} {s : CmdThread} {c : StCmdFrame} {seps p : Bytes} {fd : Int}
  {year : UInt16} {mon day hour min sec : UInt8} {now : TimeOfDay}

/-! ### The numbers of a line -/

theorem role_digit {b : UInt8} (hb : isDigit b = true) : Shell.role b = .literal := by
  obtain ⟨hlow, hhigh⟩ := isDigit_iff.mp hb
  have hdigits : ∀ n ∈ List.range 10, Shell.role (UInt8.ofNat (0x30 + n)) = .literal := by decide
  have hvalue : b = UInt8.ofNat (0x30 + (b.toNat - 0x30)) := by
    rw [Nat.add_sub_cancel' hlow, UInt8.ofNat_toNat]
  rw [hvalue]
  exact hdigits _ (List.mem_range.mpr (by omega))

theorem noDigit_of_all (h : (seps.all fun b => !isDigit b) = true) : ∀ b ∈ seps, isDigit b = false :=
  fun b hb => by simpa using List.all_eq_true.mp h b hb

theorem numbers_decNat (hseps : ∀ b ∈ seps, isDigit b = false) (n : Nat) :
    numbers seps (decNat n) = [n] := by
  have hnone : ∀ b ∈ decNat n, decide (b ∈ seps) = false := by
    intro b hb
    refine decide_eq_false fun hmem => ?_
    exact absurd (isDigit_of_mem_decNat hb) (by rw [hseps b hmem]; decide)
  rw [numbers, List.splitOnP_eq_singleton hnone, List.map_singleton, digitsValue_decNat]

theorem numbers_decNat_cons (hseps : ∀ b ∈ seps, isDigit b = false) {sep : UInt8} (hsep : sep ∈ seps)
    (n : Nat) (rest : Bytes) :
    numbers seps (decNat n ++ sep :: rest) = n :: numbers seps rest := by
  have hnone : ∀ b ∈ decNat n, decide (b ∈ seps) = false := by
    intro b hb
    refine decide_eq_false fun hmem => ?_
    exact absurd (isDigit_of_mem_decNat hb) (by rw [hseps b hmem]; decide)
  rw [numbers, List.splitOnP_append_cons_of_forall_mem hnone sep (by simpa using hsep), List.map_cons,
    digitsValue_decNat]
  rfl

/-- The last word of both lines. -/
def dateWord (a b c : UInt8) (year : UInt16) (mon day hour min sec : UInt8) : Bytes :=
  decNat year.toNat ++ a :: (decNat mon.toNat ++ a :: (decNat day.toNat ++ b :: (decNat hour.toNat
    ++ c :: (decNat min.toNat ++ c :: decNat sec.toNat))))

theorem numbers_dateWord (hseps : ∀ b ∈ seps, isDigit b = false) {a b d : UInt8} (ha : a ∈ seps)
    (hb : b ∈ seps) (hd : d ∈ seps) :
    numbers seps (dateWord a b d year mon day hour min sec)
      = [year.toNat, mon.toNat, day.toNat, hour.toNat, min.toNat, sec.toNat] := by
  rw [dateWord, numbers_decNat_cons hseps ha, numbers_decNat_cons hseps ha, numbers_decNat_cons hseps hb,
    numbers_decNat_cons hseps hd, numbers_decNat_cons hseps hd, numbers_decNat hseps]

theorem dateWord_length (a b d : UInt8) : (dateWord a b d year mon day hour min sec).length ≤ 25 := by
  have hbyte : ∀ x : UInt8, (decNat x.toNat).length ≤ 3 := fun x =>
    decNat_length_le (by decide) (Nat.lt_trans x.toNat_lt (by decide))
  have hyear : (decNat year.toNat).length ≤ 5 :=
    decNat_length_le (by decide) (Nat.lt_trans year.toNat_lt (by decide))
  have hmon := hbyte mon
  have hday := hbyte day
  have hhour := hbyte hour
  have hmin := hbyte min
  have hsec := hbyte sec
  simp only [dateWord, List.length_append, List.length_cons]
  omega

/-- Digits and separators only. -/
theorem mem_dateWord {a b d x : UInt8} (hx : x ∈ dateWord a b d year mon day hour min sec) :
    isDigit x = true ∨ x = a ∨ x = b ∨ x = d := by
  simp only [dateWord, List.mem_append, List.mem_cons] at hx
  have hdigit : ∀ {n : Nat}, x ∈ decNat n → isDigit x = true := isDigit_of_mem_decNat
  tauto

theorem hwclockCmd_eq : hwclockCmd year mon day hour min sec
    = Shell.join [ascii "hisi_hwclock", ascii "-s", ascii "time",
      dateWord 0x2f 0x2f 0x2f year mon day hour min sec] := by
  have hhead : ascii "hisi_hwclock -s time " = ascii "hisi_hwclock" ++ 0x20 :: (ascii "-s"
      ++ 0x20 :: (ascii "time" ++ [0x20])) := rfl
  have hslash : ascii "/" = [0x2f] := rfl
  simp only [hwclockCmd, List.flatten_cons, List.flatten_nil, List.append_nil, Shell.join, dateWord,
    hhead, hslash, List.append_assoc, List.cons_append, List.nil_append]

theorem dateCmd_eq : dateCmd year mon day hour min sec
    = Shell.join [ascii "date", ascii "-s"] ++ [0x20]
      ++ 0x22 :: (dateWord 0x2d 0x20 0x3a year mon day hour min sec ++ [0x22]) := by
  have hhead : ascii "date -s \"" = ascii "date" ++ 0x20 :: (ascii "-s" ++ [0x20, 0x22]) := rfl
  have hdash : ascii "-" = [0x2d] := rfl
  have hblank : ascii " " = [0x20] := rfl
  have hcolon : ascii ":" = [0x3a] := rfl
  have hquote : ascii "\"" = [0x22] := rfl
  simp only [dateCmd, List.flatten_cons, List.flatten_nil, List.append_nil, Shell.join, dateWord, hhead,
    hdash, hblank, hcolon, hquote, List.append_assoc, List.cons_append, List.nil_append]

theorem plain_dateWord : Shell.plain (dateWord 0x2f 0x2f 0x2f year mon day hour min sec) = true := by
  have hall : ∀ x ∈ dateWord 0x2f 0x2f 0x2f year mon day hour min sec, Shell.role x = .literal := by
    intro x hx
    rcases mem_dateWord hx with hdigit | rfl | rfl | rfl
    · exact role_digit hdigit
    all_goals decide
  cases hdate : dateWord 0x2f 0x2f 0x2f year mon day hour min sec with
  | nil =>
      have hlength := congrArg List.length hdate
      simp [dateWord] at hlength
  | cons x rest =>
      rw [hdate, List.forall_mem_cons] at hall
      rw [Shell.plain, Bool.and_eq_true, decide_eq_true_eq, List.all_eq_true]
      exact ⟨hall.1, fun y hy => decide_eq_true (by rw [hall.2 y hy]; decide)⟩

theorem fields_hwclockCmd : Shell.fields (hwclockCmd year mon day hour min sec)
    = some [ascii "hisi_hwclock", ascii "-s", ascii "time",
      dateWord 0x2f 0x2f 0x2f year mon day hour min sec] := by
  have hplain : ∀ w ∈ [ascii "hisi_hwclock", ascii "-s", ascii "time",
      dateWord 0x2f 0x2f 0x2f year mon day hour min sec], Shell.plain w = true := by
    simp only [List.forall_mem_cons]
    exact ⟨by decide, by decide, by decide, plain_dateWord, by simp⟩
  rw [hwclockCmd_eq, Shell.fields_join hplain (List.cons_ne_nil _ _)]

theorem fields_dateCmd : Shell.fields (dateCmd year mon day hour min sec)
    = some [ascii "date", ascii "-s", dateWord 0x2d 0x20 0x3a year mon day hour min sec] := by
  have hquoted : ∀ x ∈ dateWord 0x2d 0x20 0x3a year mon day hour min sec,
      Shell.quotable x = true := by
    intro x hx
    rcases mem_dateWord hx with hdigit | rfl | rfl | rfl
    · rw [Shell.quotable, role_digit hdigit]
      decide
    all_goals decide
  have hplain : ∀ w ∈ [ascii "date", ascii "-s"], Shell.plain w = true := by decide
  rw [dateCmd_eq, Shell.fields_join_quoted hplain (List.cons_ne_nil _ _) hquoted]
  rfl

theorem clockDate_hwclockCmd : clockDate (hwclockCmd year mon day hour min sec)
    = some [year.toNat, mon.toNat, day.toNat, hour.toNat, min.toNat, sec.toNat] := by
  rw [clockDate, fields_hwclockCmd]
  simp only [and_self, if_true]
  rw [numbers_dateWord (noDigit_of_all (by decide)) (by decide) (by decide) (by decide)]

theorem stampDate_dateCmd : stampDate (dateCmd year mon day hour min sec)
    = some [year.toNat, mon.toNat, day.toNat, hour.toNat, min.toNat, sec.toNat] := by
  rw [stampDate, fields_dateCmd]
  simp only [and_self, if_true]
  rw [numbers_dateWord (noDigit_of_all (by decide)) (by decide) (by decide) (by decide)]

theorem hwclockCmd_length : (hwclockCmd year mon day hour min sec).length < 64 := by
  have hword : (dateWord 0x2f 0x2f 0x2f year mon day hour min sec).length ≤ 25 := dateWord_length _ _ _
  have hclock : (ascii "hisi_hwclock").length = 12 := rfl
  have hoption : (ascii "-s").length = 2 := rfl
  have htime : (ascii "time").length = 4 := rfl
  simp only [hwclockCmd_eq, Shell.join, List.length_append, List.length_cons, hclock, hoption, htime]
  omega

theorem dateCmd_length : (dateCmd year mon day hour min sec).length < 64 := by
  have hword : (dateWord 0x2d 0x20 0x3a year mon day hour min sec).length ≤ 25 := dateWord_length _ _ _
  have hdate : (ascii "date").length = 4 := rfl
  have hoption : (ascii "-s").length = 2 := rfl
  simp only [dateCmd_eq, Shell.join, List.length_append, List.length_cons, List.length_nil, hdate,
    hoption]
  omega

/-! ### The handler -/

/-- What the handler decodes from a payload that begins with these bytes. -/
theorem setSystemDate_bytes {yearH yearL : UInt8} {rest : Bytes} (len : UInt16) :
    setSystemDate env st (1 :: yearH :: yearL :: mon :: day :: hour :: min :: sec :: rest) len
      = some {
          status := if env.system 0 = 0 then env.system 1 else 0
          statics := { st with mode := 1 }
          events := .system (hwclockCmd (be16 yearH yearL) mon day hour min sec)
            :: if env.system 0 = 0 then [.system (dateCmd (be16 yearH yearL) mon day hour min sec)]
              else [] } := by
  simp only [setSystemDate, readBe16, List.getElem?_cons_zero, List.getElem?_cons_succ,
    Option.bind_eq_bind, Option.bind_some, Option.pure_def, ne_eq, not_true_eq_false, if_false]
  by_cases hclock : env.system 0 = 0
  · simp only [hclock, if_true]
  · simp only [hclock, if_false]

theorem setsDate_iff {d : List Nat} {yearH yearL : UInt8} {events : List Event}
    (hevents : shellLines events = hwclockCmd (be16 yearH yearL) mon day hour min sec
      :: if env.system 0 = 0 then [dateCmd (be16 yearH yearL) mon day hour min sec] else [])
    (hd : d = [(be16 yearH yearL).toNat, mon.toNat, day.toNat, hour.toNat, min.toNat, sec.toNat])
    (date : List Int) : SetsDate env (shellLines events) date ↔ d.map Int.ofNat = date := by
  rw [hevents]
  constructor
  · intro h
    have hclock := h.clock
    rw [List.getElem?_cons_zero, Option.bind_some, clockDate_hwclockCmd, ← hd, Option.map_some] at hclock
    exact Option.some.inj hclock
  · rintro rfl
    refine ⟨?_, fun hzero => ?_, ?_, ?_⟩
    · rw [List.getElem?_cons_zero, Option.bind_some, clockDate_hwclockCmd, ← hd, Option.map_some]
    · rw [if_pos hzero, List.getElem?_cons_succ, List.getElem?_cons_zero, Option.bind_some,
        stampDate_dateCmd, ← hd, Option.map_some]
    · split_ifs <;> rfl
    · intro line hline
      rcases List.mem_cons.mp hline with rfl | hline
      · exact hwclockCmd_length
      · split_ifs at hline
        · obtain rfl := List.mem_singleton.mp hline
          exact dateCmd_length
        · cases hline

/-! ### The bytes of a date -/

theorem toNat_ofInt_byte (z : Int) : ((UInt8.ofInt z).toNat : Int) = z % 2 ^ 8 := by
  simp [UInt8.ofInt]
  omega

theorem toNat_year (z : Int) :
    ((be16 (UInt8.ofInt (z / 256)) (UInt8.ofInt z)).toNat : Int) = z % 2 ^ 16 := by
  have hhigh := toNat_ofInt_byte (z / 256)
  have hlow := toNat_ofInt_byte z
  rw [toNat_be16]
  push_cast
  rw [hhigh, hlow]
  omega

/-- The six numbers that the handler decodes from the reply to a query. -/
def decodedDate (now : TimeOfDay) : List Nat :=
  [(be16 (UInt8.ofInt ((now.tmYear + 1900) / 256)) (UInt8.ofInt (now.tmYear + 1900))).toNat,
    (UInt8.ofInt (now.tmMon + 1)).toNat, (UInt8.ofInt now.tmMday).toNat, (UInt8.ofInt now.tmHour).toNat,
    (UInt8.ofInt now.tmMin).toNat, (UInt8.ofInt now.tmSec).toNat]

theorem decodedDate_eq_iff (now : TimeOfDay) :
    (decodedDate now).map Int.ofNat = now.date ↔ now.InRange := by
  simp only [decodedDate, TimeOfDay.date, List.map_cons, List.map_nil, List.cons.injEq, and_true,
    Int.ofNat_eq_natCast, toNat_year, toNat_ofInt_byte]
  constructor
  · rintro ⟨hyear, hmon, hday, hhour, hmin, hsec⟩
    exact ⟨by omega, by omega, by omega, by omega, by omega, by omega⟩
  · rintro ⟨hyear, hmon, hday, hhour, hmin, hsec⟩
    exact ⟨by omega, by omega, by omega, by omega, by omega, by omega⟩

/-! ### The two requests -/

theorem DateRequest.carried {frame : WireFrame} (h : DateRequest p frame) (hc : frame.Carried fd c) :
    c.isBinary = true ∧ cstr c.cmdName = some setDateCmd.name ∧ c.payload = p ∧ c.fd = fd := by
  have hbinary : c.cmdId = 0x0101 → c.isBinary = true := by
    intro hid
    rw [StCmdFrame.isBinary, hid]
    decide
  cases h with
  | ht frameId =>
      have hrecovered : Recovered htCmdList fd frameId 0x0101 (8 + p.length) p c := hc
      exact ⟨hbinary hrecovered.cmdId_eq, hrecovered.name_eq _ (by decide), hrecovered.payload_eq,
        hrecovered.fd_eq⟩
  | sl frameId dir deviceId =>
      obtain ⟨hrecovered, _⟩ : Recovered slCmdList fd frameId 0x0101 (13 + p.length) p c
        ∧ c.deviceId = deviceId := hc
      exact ⟨hbinary hrecovered.cmdId_eq, hrecovered.name_eq _ (by decide), hrecovered.payload_eq,
        hrecovered.fd_eq⟩

theorem DateRequest.encode_length {frame : WireFrame} (h : DateRequest p frame) :
    frame.encode.length ≤ p.length + 15 := by
  cases h with
  | ht frameId =>
      rw [WireFrame.encode, htFrame, withCrc_length, htBody_length]
      omega
  | sl frameId dir deviceId =>
      rw [WireFrame.encode, slFrame, withCrc_length, slBody_length]
      omega

/-- A request that one read gives is pushed whatever the locals of the check and the parser hold. -/
theorem DateRequest.handled {frame : WireFrame} (h : DateRequest p frame) (hfits : p.length ≤ 240)
    (tmpStr : Block 128) (residue : StCmdFrame) (fd : Int) :
    ∃ c, handle tmpStr residue fd frame.encode = some (some c)
      ∧ c.isBinary = true ∧ cstr c.cmdName = some setDateCmd.name ∧ c.payload = p ∧ c.fd = fd := by
  have hlength := h.encode_length
  have hbegins : BeginsWith ⟨tmpStr, residue, frame.encode⟩ frame :=
    ⟨[], (List.append_nil _).symm, show frame.encode.length ≤ 255 by omega⟩
  obtain ⟨c, hhandle, hcarried⟩ := handle_of_beginsWith hbegins fd
  exact ⟨c, hhandle, h.carried hcarried⟩

theorem data_of_payload (h : c.payload = p) : ∃ rest, c.data = p ++ rest :=
  ⟨c.data.drop c.cmdLen.toNat, by rw [← h, StCmdFrame.payload, List.take_append_drop]⟩

theorem entryHandler_setDate (hbin : c.isBinary = true) :
    entryHandler env st c setDateCmd = setSystemDate env st c.data c.cmdLen := by
  rw [entryHandler, if_pos hbin]
  rfl

/-- A query is answered with the time of day. -/
theorem getCmd_dateQuery (hbin : c.isBinary = true) (hname : cstr c.cmdName = some setDateCmd.name)
    {b : UInt8} (hb : c.data[0]? = some b) (hquery : b ≠ 1) (hmemory : env.mallocFails = false)
    (s : CmdThread) :
    ∃ s' response, getCmd env s c = some (s', [.opWrite c.fd response])
      ∧ (readResponse response).map ReadResponse.reply = some (timeTaken env.now) := by
  let found : Statics := { s.statics with mode := 0, now := env.now }
  have hhandler : setSystemDate env s.statics c.data c.cmdLen
      = some { status := 0, statics := found, events := [] } :=
    Request.setSystemDate_query (a := ⟨.binary, env, c, s.reply⟩) hb hquery
  have hrun := (entryHandler_setDate hbin).trans hhandler
  obtain ⟨w, hw, hret, _, hwrote⟩ : ∃ w, setDateReply found = some w ∧ w.ret = 11 ∧ w.statics = found
      ∧ w.wrote = timeTaken env.now := Request.setDateReply_query rfl
  have hlength : w.wrote.length = 11 := by rw [hwrote]; rfl
  obtain ⟨reply, hwrite, hbytes⟩ := Block.exists_write (b := s.reply)
    (show 0 + w.wrote.length ≤ 512 by omega)
  have hout : dispatch env s c
      = some { ret := w.ret, statics := w.statics, reply, events := [] } :=
    (dispatch_selected (selectCmd_registered.mpr ⟨setDateCmd_mem, hname⟩)).mpr
      ⟨_, hrun, (finishCmd_reply rfl rfl).mpr ⟨w, reply, hw, hwrite, rfl⟩⟩
  have hchoose : chooseAnswer c w.ret = .response 11 := by
    rw [chooseAnswer, if_pos hbin, hret]
    rfl
  have hreply : reply.bytes.take 11 = timeTaken env.now := by
    rw [hbytes, patch, List.take_zero, List.nil_append, ← hlength, List.take_left, hwrote]
  have hresponse : doResponse c reply.bytes 11 = some (withCrc (responseBody c (reply.bytes.take 11))) :=
    doResponse_eq_some_iff.mpr ⟨by rw [reply.size_eq]; decide, rfl⟩
  refine ⟨{ statics := w.statics, reply }, withCrc (responseBody c (reply.bytes.take 11)), ?_, ?_⟩
  · simp only [getCmd, hout, hchoose, answerBytes, hmemory, Bool.false_eq_true, if_false, hresponse,
      Option.bind_eq_bind, Option.bind_some, Option.map_some, List.nil_append]
    rfl
  · rw [readResponse_response hresponse (by decide), Option.map_some, hreply]

theorem shellLines_append (events more : List Event) :
    shellLines (events ++ more) = shellLines events ++ shellLines more := List.filterMap_append

/-- A request with the reply to a query behind its first byte runs the lines of that date. -/
theorem getCmd_dateSet (hbin : c.isBinary = true) (hname : cstr c.cmdName = some setDateCmd.name)
    (hpayload : c.payload = 1 :: timeTaken now) (hstatus : env.mallocFails = true ∨ env.system 1 ≤ 512)
    (s : CmdThread) :
    ∃ s' events, getCmd env s c = some (s', events)
      ∧ ∀ date, SetsDate env (shellLines events) date ↔ (decodedDate now).map Int.ofNat = date := by
  have hfits : HandlerFits env c := handlerFits_of_other hname (by decide)
  obtain ⟨out, hout⟩ := exists_dispatch (s := s) hfits
  obtain ⟨sent, hsent⟩ := (exists_binaryAnswer_iff hbin hout).mpr fun _ _ => hstatus
  obtain ⟨rest, hdata⟩ := data_of_payload hpayload
  obtain ⟨r, hrun, hfinish⟩ :=
    (dispatch_selected (selectCmd_registered.mpr ⟨setDateCmd_mem, hname⟩)).mp hout
  rw [entryHandler_setDate hbin, hdata] at hrun
  have hbytes := hrun.symm.trans (setSystemDate_bytes c.cmdLen)
  have hevents : out.events = r.events := finishCmd_events hfinish
  refine ⟨_, _, by simp only [getCmd, hout, hsent, Option.bind_eq_bind, Option.bind_some]; rfl, ?_⟩
  refine setsDate_iff ?_ rfl
  obtain rfl := Option.some.inj hbytes
  have hlines : shellLines out.events
      = hwclockCmd (be16 (UInt8.ofInt ((now.tmYear + 1900) / 256)) (UInt8.ofInt (now.tmYear + 1900)))
          (UInt8.ofInt (now.tmMon + 1)) (UInt8.ofInt now.tmMday) (UInt8.ofInt now.tmHour)
          (UInt8.ofInt now.tmMin) (UInt8.ofInt now.tmSec)
        :: if env.system 0 = 0 then
            [dateCmd (be16 (UInt8.ofInt ((now.tmYear + 1900) / 256)) (UInt8.ofInt (now.tmYear + 1900)))
              (UInt8.ofInt (now.tmMon + 1)) (UInt8.ofInt now.tmMday) (UInt8.ofInt now.tmHour)
              (UInt8.ofInt now.tmMin) (UInt8.ofInt now.tmSec)]
          else [] := by
    rw [hevents]
    by_cases hclock : env.system 0 = 0
    · simp only [hclock, if_true]
      rfl
    · simp only [hclock, if_false]
      rfl
  rw [shellLines_append, hlines]
  cases sent with
  | none => exact List.append_nil _
  | some buf => exact List.append_nil _

/-- **A date there and back.** A client of either protocol asks for the time and hands the reply back in
a request of its own, with any number of other commands in between. Whatever the locals of the parsers
and the state of the command thread are, the shell is given the date that the query found if and only if
each of its numbers fits its bytes. -/
theorem date_roundTrip {query : Bytes} {b : UInt8} (hb : query.head? = some b) (hquery : b ≠ 1)
    (hfits : query.length ≤ 240) {asking : WireFrame} (hasking : DateRequest query asking)
    (asked : Env) (hmemory : asked.mallocFails = false) (tmpStr : Block 128) (residue : StCmdFrame)
    (fd : Int) (s : CmdThread) :
    ∃ cmd s' response content, handle tmpStr residue fd asking.encode = some (some cmd)
      ∧ getCmd asked s cmd = some (s', [.opWrite fd response])
      ∧ (readResponse response).map ReadResponse.reply = some content
      ∧ ∀ (telling : WireFrame), DateRequest (1 :: content) telling →
        ∀ (told : Env), (told.mallocFails = true ∨ told.system 1 ≤ 512) →
        ∀ (tmpStr' : Block 128) (residue' : StCmdFrame) (fd' : Int) (t : CmdThread),
        ∃ cmd' t' events, handle tmpStr' residue' fd' telling.encode = some (some cmd')
          ∧ getCmd told t cmd' = some (t', events)
          ∧ (SetsDate told (shellLines events) asked.now.date ↔ asked.now.InRange) := by
  obtain ⟨cmd, hhandle, hbin, hname, hpayload, hfd⟩ := hasking.handled hfits tmpStr residue fd
  obtain ⟨rest, hdata⟩ := data_of_payload hpayload
  have hfirst : cmd.data[0]? = some b := by
    rw [hdata, ← List.head?_eq_getElem?, List.head?_append, hb]
    rfl
  obtain ⟨s', response, hget, hread⟩ := getCmd_dateQuery hbin hname hfirst hquery hmemory s
  rw [hfd] at hget
  refine ⟨cmd, s', response, timeTaken asked.now, hhandle, hget, hread, ?_⟩
  intro telling htelling told hstatus tmpStr' residue' fd' t
  have hshort : (1 :: timeTaken asked.now).length ≤ 240 := by
    have hlength : (timeTaken asked.now).length = 11 := rfl
    rw [List.length_cons, hlength]
    decide
  obtain ⟨cmd', hhandle', hbin', hname', hpayload', _⟩ := htelling.handled hshort tmpStr' residue' fd'
  obtain ⟨t', events, hget', hsets⟩ := getCmd_dateSet hbin' hname' hpayload' hstatus t
  exact ⟨cmd', t', events, hhandle', hget', (hsets _).trans (decodedDate_eq_iff asked.now)⟩

/-- A system at noon of a day in November. -/
def noon : Env :=
  { Env.succeeding with
    now := {
      tvUsec := ⟨250000, by decide⟩
      tmYear := 119
      tmMon := 10
      tmMday := 20
      tmHour := 12
      tmMin := 0
      tmSec := 5 } }

theorem date_roundTrip_noon :
    ∃ cmd s' response content,
      handle (Block.zeroed 128) StCmdFrame.zeroed 5 (WireFrame.ht 7 0x0101 [0]).encode = some (some cmd)
      ∧ getCmd noon CmdThread.zeroed cmd = some (s', [.opWrite 5 response])
      ∧ (readResponse response).map ReadResponse.reply = some content
      ∧ ∃ cmd' t' events,
        handle (Block.zeroed 128) StCmdFrame.zeroed 6 (WireFrame.sl 8 0x0101 0 9 (1 :: content)).encode
          = some (some cmd')
        ∧ getCmd noon s' cmd' = some (t', events)
        ∧ SetsDate noon (shellLines events) [2019, 11, 20, 12, 0, 5] := by
  have hquery : ([0] : Bytes).head? = some 0 := rfl
  obtain ⟨cmd, s', response, content, hhandle, hget, hread, htell⟩ := date_roundTrip hquery (by decide)
    (by decide) (DateRequest.ht 7) noon rfl (Block.zeroed 128) StCmdFrame.zeroed 5 CmdThread.zeroed
  obtain ⟨cmd', t', events, hhandle', hget', hsets⟩ := htell _ (DateRequest.sl 8 0 9) noon
    (Or.inr (by decide)) (Block.zeroed 128) StCmdFrame.zeroed 6 s'
  refine ⟨cmd, s', response, content, hhandle, hget, hread, cmd', t', events, hhandle', hget', ?_⟩
  exact hsets.mpr ⟨by decide, by decide, by decide, by decide, by decide, by decide⟩

end InstructionParser
