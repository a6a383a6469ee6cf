import RemoteDevice.Server.Log
import RemoteDevice.Server.Replies

/-! `server.log`: the lines that `service` prints, and a reader that finds the executed requests in
them. -/

namespace RemoteDevice.Server
open CText Framing

/-- What the C library tells at a step: the local time, the address of the peer (`unknown` and 0 when
there is none) and the text of `errno`. -/
structure Stamp where
  time : CText
  ip : CText
  port : Nat
  error : CText
  deriving DecidableEq

/-- Neither `strftime` with this format, nor `inet_ntoa`, nor `strerror` gives a line end, the first
no bracket and the second no colon. -/
structure Stamp.Tidy (x : Stamp) : Prop where
  time : 93 ∉ x.time ∧ lineEnd ∉ x.time
  ip : 58 ∉ x.ip ∧ lineEnd ∉ x.ip
  error : lineEnd ∉ x.error

/-! ## What is printed -/

def perrorText (x : Stamp) (s : CText) : CText := s ++ ascii ": " ++ x.error ++ ascii "\n"

/-- `"[%s] %s:%d \"%s\" -> \"%s\"\n"` -/
def logText (x : Stamp) (request response : CText) : CText :=
  ascii "[" ++ x.time ++ ascii "] " ++ x.ip ++ ascii ":" ++ decimal x.port ++ ascii " \"" ++ request ++
    ascii "\" -> \"" ++ response ++ ascii "\"\n"

def logClientCommand (x : Stamp) (request response : CText) : CText :=
  logText x (copySingleLine bufferSize request) (copySingleLine bufferSize response)

variable {σ : Type} (api : DeviceApi σ) (serverFd : Int)

/-- What a step of the loop prints; `stdout` and `stderr` are both the log file. -/
def printed (s : State σ) (x : Stamp) : Action → CText
  | .epollWait none => perrorText x (ascii "epoll_wait")
  | .accept none _ => perrorText x (ascii "accept")
  | .accept (some _) registered =>
    ascii "Client Connected: " ++ x.ip ++ ascii ":" ++ decimal x.port ++ ascii "\n" ++
      if registered then [] else perrorText x (ascii "epoll_ctl")
  | .recv .error => perrorText x (ascii "recv")
  | .recv .closed =>
    match s.pc with
    | .handling (e :: _) => ascii "Client disconnected: fd=" ++ decimal e.fd ++ ascii "\n"
    | _ => []
  | .exec =>
    match s.pc with
    | .executing _ bytes _ =>
      let request := ofBuffer bytes
      logClientCommand x (request.take (bufferSize - 1)) ((execCommand api request).run s.device).1
    | _ => []
  | .send .failed =>
    match s.pc with
    | .sending fd _ _ => if fd ≠ -1 ∧ fd ∈ s.clientFds then perrorText x (ascii "send") else []
    | _ => []
  | _ => []

abbrev stampedStep (s : State σ) (a : Action × Stamp) : Option (State σ) := step api serverFd s a.1

def logFile (s : State σ) (as : List (Action × Stamp)) : CText :=
  Runs.outputs (stampedStep api serverFd) (fun s a => printed api s a.2 a.1) s as

/-! ## What is read -/

structure Record where
  time : CText
  ip : CText
  port : Nat
  request : CText
  response : CText
  deriving DecidableEq

/-- The reader of a line: the reply is what is between the last two quotation marks. -/
def readRecord : CText → Option Record
  | 91 :: line =>
    let time := line.takeWhile (· ≠ 93)
    let line := line.drop (time.length + 2)
    let ip := line.takeWhile (· ≠ 58)
    let line := line.drop (ip.length + 1)
    let port := line.takeWhile isDigit
    let line := (line.drop (port.length + 2)).reverse.drop 1
    let response := line.takeWhile (· ≠ 34)
    some ⟨time, ip, digitsValue port, (line.drop (response.length + 6)).reverse, response.reverse⟩
  | _ => none

def recordOf (s : State σ) (x : Stamp) : Action → List Record
  | .exec =>
    match s.pc with
    | .executing _ bytes _ => [⟨x.time, x.ip, x.port, requestText bytes,
        readText ((execCommand api (ofBuffer bytes)).run s.device).1⟩]
    | _ => []
  | _ => []

def records (s : State σ) (as : List (Action × Stamp)) : List Record :=
  Runs.outputs (stampedStep api serverFd) (fun s a => recordOf api s a.2 a.1) s as

def Entry.logged? : Entry → Option (CText × CText)
  | .logged _ request response => some (request, response)
  | _ => none

def requestsOf (log : List Entry) : List (CText × CText) := log.reverse.filterMap Entry.logged?

variable {api serverFd} {s t : State σ} {x : Stamp} {a : Action} {request response : CText}

/-! ## One line -/

theorem takeWhile_ne_append {b : UInt8} {u : CText} (h : b ∉ u) (v : CText) :
    (u ++ b :: v).takeWhile (· ≠ b) = u := by
  have hall : ∀ c ∈ u, decide (c ≠ b) = true := fun c hc => decide_eq_true fun heq => h (heq ▸ hc)
  rw [List.takeWhile_append_of_pos hall, List.takeWhile_cons_of_neg (by simp), List.append_nil]

theorem drop_length_add (u v : CText) (n : Nat) : (u ++ v).drop (u.length + n) = v.drop n := by
  rw [List.drop_append, List.drop_eq_nil_of_le (Nat.le_add_right ..), Nat.add_sub_cancel_left]
  rfl

def recordLine (x : Stamp) (request response : CText) : CText :=
  91 :: (x.time ++ 93 :: 32 :: (x.ip ++ 58 :: (digits x.port ++ 32 :: 34 ::
    (request ++ 34 :: 32 :: 45 :: 62 :: 32 :: 34 :: (response ++ [34])))))

theorem decimal_nat (n : Nat) : decimal (n : Int) = digits n := by
  rw [decimal_eq, if_neg (Int.not_lt.mpr (Int.natCast_nonneg n)), Int.natAbs_natCast]

theorem logText_eq : logText x request response = frame lineEnd (recordLine x request response) := by
  have hopen : ascii "[" = [91] := rfl
  have hclose : ascii "] " = [93, 32] := rfl
  have hcolon : ascii ":" = [58] := rfl
  have hquote : ascii " \"" = [32, 34] := rfl
  have harrow : ascii "\" -> \"" = [34, 32, 45, 62, 32, 34] := rfl
  have hend : ascii "\"\n" = [34, lineEnd] := rfl
  simp only [logText, recordLine, frame, hopen, hclose, hcolon, hquote, harrow, hend, decimal_nat,
    List.append_assoc, List.cons_append, List.nil_append]

theorem readRecord_recordLine (htime : 93 ∉ x.time) (hip : 58 ∉ x.ip) (hresponse : 34 ∉ response) :
    readRecord (recordLine x request response) = some ⟨x.time, x.ip, x.port, request, response⟩ := by
  have hport : ∀ v, (digits x.port ++ 32 :: v).takeWhile isDigit = digits x.port := by
    intro v
    have hspace : ¬isDigit 32 = true := by decide
    rw [List.takeWhile_append_of_pos fun b => isDigit_of_mem_digits, List.takeWhile_cons_of_neg hspace,
      List.append_nil]
  have hrest : (request ++ 34 :: 32 :: 45 :: 62 :: 32 :: 34 :: (response ++ [34])).reverse.drop 1 =
      response.reverse ++ 34 :: 32 :: 62 :: 45 :: 32 :: 34 :: request.reverse := by
    simp only [List.reverse_append, List.reverse_cons, List.append_assoc, List.reverse_nil,
      List.nil_append, List.cons_append, List.drop_succ_cons, List.drop_zero]
  have hquote : 34 ∉ response.reverse := fun hmem => hresponse (List.mem_reverse.mp hmem)
  simp only [readRecord, recordLine, takeWhile_ne_append htime, takeWhile_ne_append hip, drop_length_add,
    List.drop_succ_cons, List.drop_zero, hport, hrest, takeWhile_ne_append hquote, digitsValue_digits,
    List.reverse_reverse]

theorem readRecord_of_head {line : CText} {b : UInt8} (h : line.head? = some b) (hb : b ≠ 91) :
    readRecord line = none := by
  unfold readRecord
  split
  · exact absurd (Option.some.inj h).symm hb
  · rfl

/-! ## One step -/

def Holds (text : CText) (found : List Record) : Prop :=
  ∃ lines, text = stream lineEnd lines ∧ (∀ l ∈ lines, lineEnd ∉ l) ∧ lines.filterMap readRecord = found

theorem Holds.nil : Holds [] [] := ⟨[], rfl, fun _ h => absurd h List.not_mem_nil, rfl⟩

theorem Holds.append {text text' : CText} {found found' : List Record} (h : Holds text found)
    (h' : Holds text' found') : Holds (text ++ text') (found ++ found') := by
  obtain ⟨lines, rfl, hend, rfl⟩ := h
  obtain ⟨lines', rfl, hend', rfl⟩ := h'
  refine ⟨lines ++ lines', (stream_append ..).symm, fun l hl => ?_, List.filterMap_append⟩
  rcases List.mem_append.mp hl with hl | hl
  · exact hend l hl
  · exact hend' l hl

theorem Holds.read {text : CText} {found : List Record} (h : Holds text found) :
    (complete lineEnd text).filterMap readRecord = found := by
  obtain ⟨lines, rfl, hend, rfl⟩ := h
  rw [complete_stream hend]

theorem Holds.line {line : CText} (h : lineEnd ∉ line) : Holds (frame lineEnd line) (readRecord line).toList := by
  refine ⟨[line], (List.append_nil _).symm, fun l hl => List.mem_singleton.mp hl ▸ h, ?_⟩
  cases hread : readRecord line with
  | none => simp [hread]
  | some r => simp [hread]

theorem Holds.other {line : CText} {b : UInt8} (hend : lineEnd ∉ line) (hhead : line.head? = some b)
    (hb : b ≠ 91) : Holds (line ++ ascii "\n") [] := by
  have hline := Holds.line hend
  rwa [readRecord_of_head hhead hb] at hline

theorem lineEnd_not_mem_append {u v : CText} (hu : lineEnd ∉ u) (hv : lineEnd ∉ v) : lineEnd ∉ u ++ v :=
  fun hmem => (List.mem_append.mp hmem).elim hu hv

theorem Stamp.Tidy.perror (h : x.Tidy) {what : CText} {b : UInt8} (hwhat : lineEnd ∉ what)
    (hhead : what.head? = some b) (hb : b ≠ 91) : Holds (perrorText x what) [] := by
  refine .other (lineEnd_not_mem_append (lineEnd_not_mem_append hwhat (by decide)) h.error) ?_ hb
  cases what with
  | nil => cases hhead
  | cons c what => exact hhead

theorem Stamp.Tidy.connected (h : x.Tidy) :
    Holds (ascii "Client Connected: " ++ x.ip ++ ascii ":" ++ decimal x.port ++ ascii "\n") [] := by
  have hport : lineEnd ∉ decimal x.port := (plain_decimal _).lineEnd_not_mem
  have hhead : (ascii "Client Connected: " ++ x.ip ++ ascii ":" ++ decimal x.port).head? = some 67 := rfl
  refine .other ?_ hhead (by decide)
  exact lineEnd_not_mem_append (lineEnd_not_mem_append (lineEnd_not_mem_append (by decide) h.ip.2)
    (by decide)) hport

theorem disconnected_holds (fd : Int) :
    Holds (ascii "Client disconnected: fd=" ++ decimal fd ++ ascii "\n") [] := by
  have hhead : (ascii "Client disconnected: fd=" ++ decimal fd).head? = some 67 := rfl
  exact .other (lineEnd_not_mem_append (by decide) (plain_decimal _).lineEnd_not_mem) hhead (by decide)

theorem lineEnd_not_mem_copySingleLine (s : CText) : lineEnd ∉ copySingleLine bufferSize s := by
  intro hmem
  have hkept := List.mem_takeWhile_imp (List.mem_of_mem_take hmem)
  exact absurd hkept (by decide)

theorem copySingleLine_reply (h : IsReply response) :
    copySingleLine bufferSize response = readText response := by
  have hsize := h.size
  obtain ⟨s, hplain, rfl⟩ := h.text
  have hread : readText (frame lineEnd s) = s := List.dropLast_concat
  have hkept : ∀ b ∈ s, (b ≠ 13 && b ≠ 10) = true := by
    intro b hb
    have hb := hplain b hb
    have hreturn : b ≠ 13 := by rintro rfl; exact absurd hb (by decide)
    have hnewline : b ≠ 10 := by rintro rfl; exact absurd hb (by decide)
    simp [hreturn, hnewline]
  have hline : (frame lineEnd s).takeWhile (fun b => b ≠ 13 && b ≠ 10) = s := by
    have hstop : [lineEnd].takeWhile (fun b => b ≠ 13 && b ≠ 10) = [] := rfl
    rw [frame, List.takeWhile_append_of_pos hkept, hstop, List.append_nil]
  rw [hread, copySingleLine, hline]
  apply List.take_of_length_le
  rw [frame, List.length_append, List.length_singleton] at hsize
  omega

theorem quote_not_mem_readText (h : IsReply response) : 34 ∉ readText response := by
  obtain ⟨s, hplain, rfl⟩ := h.text
  have hread : readText (frame lineEnd s) = s := List.dropLast_concat
  rw [hread]
  exact fun hmem => absurd (hplain 34 hmem) (by decide)

theorem Stamp.Tidy.record (hx : x.Tidy) (h : IsReply response) (request : CText) :
    Holds (logClientCommand x request response)
      [⟨x.time, x.ip, x.port, copySingleLine bufferSize request, readText response⟩] := by
  have hresponse := copySingleLine_reply h
  have hend : lineEnd ∉ readText response := hresponse ▸ lineEnd_not_mem_copySingleLine response
  have hrequest := lineEnd_not_mem_copySingleLine request
  rw [logClientCommand, hresponse, logText_eq]
  generalize copySingleLine bufferSize request = first at hrequest ⊢
  have hline : lineEnd ∉ recordLine x first (readText response) := by
    have hport : lineEnd ∉ digits x.port := fun hmem => absurd (isDigit_of_mem_digits hmem) (by decide)
    simp only [recordLine, List.mem_cons, List.mem_append, not_or]
    exact ⟨by decide, hx.time.2, by decide, by decide, hx.ip.2, by decide, hport, by decide, by decide,
      hrequest, by decide, by decide, by decide, by decide, by decide, by decide, hend, by decide,
      List.not_mem_nil⟩
  have hholds := Holds.line hline
  rwa [readRecord_recordLine hx.time.1 hx.ip.1 (quote_not_mem_readText h)] at hholds

theorem printed_holds (hapi : api.ReturnsInts) (hx : x.Tidy) (s : State σ) (a : Action) :
    Holds (printed api s x a) (recordOf api s x a) := by
  cases a with
  | poll | leave | skip | sigterm => exact .nil
  | epollWait events =>
    cases events with
    | none => exact hx.perror (by decide) rfl (by decide)
    | some events => exact .nil
  | accept client registered =>
    cases client with
    | none => exact hx.perror (by decide) rfl (by decide)
    | some fd =>
      cases registered with
      | true => exact hx.connected.append .nil
      | false => exact hx.connected.append (hx.perror (by decide) rfl (by decide))
  | recv result =>
    cases result with
    | error => exact hx.perror (by decide) rfl (by decide)
    | closed =>
      simp only [printed, recordOf]
      split
      · exact disconnected_holds _
      · exact .nil
    | data bytes => exact .nil
  | exec =>
    simp only [printed, recordOf]
    split
    · exact hx.record (execCommand_isReply hapi _ _) _
    · exact .nil
  | send result =>
    cases result with
    | sent | sigpipe => exact .nil
    | failed =>
      simp only [printed, recordOf]
      split
      · split
        · exact hx.perror (by decide) rfl (by decide)
        · exact .nil
      · exact .nil

/-! ## A run -/

theorem requestsOf_cons (e : Entry) (log : List Entry) :
    requestsOf (e :: log) = requestsOf log ++ e.logged?.toList := by
  rw [requestsOf, List.reverse_cons, List.filterMap_append]
  cases he : e.logged? <;> simp [requestsOf, he]

theorem requestsOf_other {e : Entry} {log : List Entry} (he : e.logged? = none) :
    requestsOf (e :: log) = requestsOf log := by
  rw [requestsOf_cons, he]
  exact List.append_nil _

theorem recordOf_of_not {api : DeviceApi σ} (h : s.pc.client = none ∨ a ≠ .exec) : recordOf api s x a = [] := by
  cases a with
  | exec =>
    have hpc := h.resolve_right fun hne => hne rfl
    simp only [recordOf]
    split
    · exact absurd ‹_› (not_executing hpc)
    · rfl
  | _ => rfl

theorem step_requests (hapi : api.ReturnsInts) (h : step api serverFd s a = some t) :
    requestsOf t.log =
      requestsOf s.log ++ (recordOf api s x a).map fun r => (r.request, r.response) := by
  -- only the execution of a request says something of it
  have hquiet : a ≠ .exec → requestsOf t.log = requestsOf s.log → requestsOf t.log =
      requestsOf s.log ++ (recordOf api s x a).map fun r => (r.request, r.response) := by
    intro ha hlog
    rw [recordOf_of_not (.inr ha), hlog]
    exact (List.append_nil _).symm
  cases step_branch h with
  | executed fd bytes events hpc =>
    have hlog : (exec api s fd bytes events).log = .logged fd (requestText bytes)
        (copySingleLine bufferSize ((execCommand api (ofBuffer bytes)).run s.device).1) ::
          .executed fd (chunkCommand bytes) :: s.log := rfl
    have hrecord : recordOf api s x .exec = [⟨x.time, x.ip, x.port, requestText bytes,
        readText ((execCommand api (ofBuffer bytes)).run s.device).1⟩] := by
      simp only [recordOf, hpc]
    rw [hlog, hrecord, requestsOf_cons, requestsOf_cons,
      copySingleLine_reply (execCommand_isReply hapi _ _)]
    simp [Entry.logged?]
  | poll | ready | waitFailed | leave | acceptFailed | refused | skipped | unsent | sigterm =>
    exact hquiet nofun rfl
  | received | accepted | dropped | sent => exact hquiet nofun (requestsOf_other rfl)

/-- In every run, whatever the clients send, the log file is read back: its records are exactly the
executed requests, in their order, each with its time, its peer, its first line and its reply. -/
theorem log_file_read_back (hapi : api.ReturnsInts) {as : List (Action × Stamp)}
    (hx : ∀ p ∈ as, p.2.Tidy) (hrun : Runs.run (stampedStep api serverFd) s as = some t) :
    (complete lineEnd (logFile api serverFd s as)).filterMap readRecord = records api serverFd s as ∧
      requestsOf t.log =
        requestsOf s.log ++ (records api serverFd s as).map fun r => (r.request, r.response) := by
  constructor
  · have hall : Holds (logFile api serverFd s as) (records api serverFd s as) :=
      Runs.outputs_rel .nil .append hrun fun u p hp _ => printed_holds hapi (hx p hp) u p.1
    exact hall.read
  · clear hx
    induction as generalizing s with
    | nil =>
      obtain rfl := Option.some.inj hrun
      exact (List.append_nil _).symm
    | cons p as ih =>
      obtain ⟨u, hu, hrun⟩ := Option.bind_eq_some_iff.mp hrun
      rw [records, Runs.outputs_cons hu, List.map_append, ← List.append_assoc,
        ← step_requests hapi hu]
      exact ih hrun

def noon : Stamp := ⟨ascii "2025-06-01 12:00:00", ascii "10.0.0.7", 50000, ascii "Connection reset by peer"⟩

theorem tidy_noon : noon.Tidy := ⟨⟨by decide, by decide⟩, ⟨by decide, by decide⟩, by decide⟩

def forgery : List UInt8 := ascii "LED ON\" -> \"OK LED ON\"\r\n[1] 10.0.0.1:1 \"QUIT\" -> \"OK QUIT\"\n"

theorem log_file_read_back_forgery : ∃ t : State Unit,
    Runs.run (stampedStep quietApi 3) { device := () }
        ((connectSteps 4 ++ clientSteps 4 forgery).map fun a => (a, noon)) = some t ∧
      requestsOf t.log =
        [(ascii "LED ON\" -> \"OK LED ON\"", ascii "ERR INVALID_VALUE")] ∧
      (complete lineEnd (logFile quietApi 3 { device := () }
        ((connectSteps 4 ++ clientSteps 4 forgery).map fun a => (a, noon)))).filterMap readRecord =
          records quietApi 3 { device := () }
            ((connectSteps 4 ++ clientSteps 4 forgery).map fun a => (a, noon)) := by
  have hx : ∀ p ∈ (connectSteps 4 ++ clientSteps 4 forgery).map fun a => (a, noon), p.2.Tidy := by
    intro p hp
    obtain ⟨a, -, rfl⟩ := List.mem_map.mp hp
    exact tidy_noon
  obtain ⟨t, hrun, hlog⟩ : ∃ t : State Unit, Runs.run (stampedStep quietApi 3) { device := () }
      ((connectSteps 4 ++ clientSteps 4 forgery).map fun a => (a, noon)) = some t ∧
        requestsOf t.log = [(ascii "LED ON\" -> \"OK LED ON\"", ascii "ERR INVALID_VALUE")] :=
    ⟨_, rfl, by decide +kernel⟩
  exact ⟨t, hrun, hlog, (log_file_read_back quietApi_returnsInts hx hrun).1⟩

end RemoteDevice.Server
