import PartCAD.Lib.Bytes
import PartCAD.Lib.Json

/-!
# Messages on a stream

A message is a header with the length of its body, and the body, which is JSON.  A stream is the
bytes that it has still to give; it may end anywhere.

* `readMessage_write` : a message that is all there is read back;
* `readMessage_cutHeader`, `readMessage_cutBody` : what a stream that ends in a message gives;
* `recovers_iff` : which streams give their messages and then `None`.
-/

namespace PartCAD.Service

open PartCAD.Lib PartCAD.Lib.Text PartCAD.Lib.Json

/-! ## The functions -/

/-- `\r\n\r\n` -/
def headerSeparator : Bytes := [13, 10, 13, 10]

section

variable {F : Type} [PyFloat F]

/-- The line of the header of a message with so long a body. -/
def headerLine (length : ℕ) : Bytes :=
  Bytes.ascii ("Content-Length: ".toList ++ Nat.toDigits 10 length)

def header (length : ℕ) : Bytes := headerLine length ++ headerSeparator

/-- What `write_message` writes; `none` where it raises. -/
def writeMessage (message : Value F) : Option Bytes :=
  (dumpsRaw message).map fun text => header (encode text).length ++ encode text

/-- The loop of `_read_headers`: what has been read of the header, and the rest of the stream if the
header is all there. -/
def readRaw (raw : Bytes) : Bytes → Bytes × Option Bytes
  | [] => (raw, if headerSeparator <:+: raw then some [] else none)
  | x :: stream =>
    if headerSeparator <:+: raw then (raw, some (x :: stream)) else readRaw (raw ++ [x]) stream

/-- The lines of a header, as a dictionary; `none` where one is not ASCII. -/
def parseHeaders (raw : Bytes) : Option (Dict Str Str) :=
  (Bytes.splitCrlf raw).foldlM
    (fun headers line =>
      if line = [] then some headers
      else
        let (name, value) := Bytes.partition 58 line
        (Bytes.decodeAscii (Bytes.lower (Bytes.strip name))).bind fun name =>
          (Bytes.decodeAscii (Bytes.strip value)).map fun value => headers.set name value)
    Dict.empty

/-- `_read_headers`, with the rest of the stream; `none` where it raises. -/
def readHeaders (stream : Bytes) : Option (Option (Dict Str Str) × Bytes) :=
  match readRaw [] stream with
  | (raw, none) => some (if raw = [] then none else some Dict.empty, [])
  | (raw, some rest) => (parseHeaders raw).map fun headers => (some headers, rest)

/-- `stream.read(length)`; everything for a negative length. -/
def read (length : ℤ) (stream : Bytes) : Bytes × Bytes :=
  if length < 0 then (stream, []) else (stream.take length.toNat, stream.drop length.toNat)

/-- `int(headers.get("content-length", 0))` -/
def contentLength (headers : Dict Str Str) : Option ℤ :=
  match headers.get? "content-length".toList with
  | some value => Bytes.parseInt value
  | none => some 0

/-- `read_message`, with the rest of the stream; `none` where it raises.  The value of Python's
`None` is that of the message `null`. -/
def readMessage (stream : Bytes) : Option (Value F × Bytes) :=
  (readHeaders stream).bind fun (headers, stream) =>
    match headers with
    | none => some (.none, stream)
    | some headers =>
      (contentLength headers).bind fun length =>
        let (body, stream) := read length stream
        if (body.length : ℤ) < length then some (.none, stream)
        else ((decodeUtf8 body).bind loads).map fun message => (message, stream)

/-- What so many calls of `read_message` return; `none` if one raises. -/
def readMessages : ℕ → Bytes → Option (List (Value F))
  | 0, _ => some []
  | n + 1, stream =>
    (readMessage stream).bind fun (message, stream) =>
      (readMessages n stream).map (message :: ·)

/-! ## Headers -/

theorem notMem_headerLine (length : ℕ) : 13 ∉ headerLine length := by
  rw [headerLine, Bytes.ascii_append, List.mem_append, not_or]
  refine ⟨by decide, fun h => ?_⟩
  have hdigit := Bytes.toNat_of_mem_digits (isDigits_toDigits length) h
  exact absurd hdigit.1 (by decide)

/-- The separator of a header is not there before the header is. -/
theorem not_infix_header {length : ℕ} {p : Bytes} (hp : p <+: header length)
    (hne : p ≠ header length) : ¬ headerSeparator <:+: p :=
  Bytes.not_infix_of_prefix (notMem_headerLine length) hp hne

/-- A header that is all there is read to its end. -/
theorem readRaw_complete {length : ℕ} {raw s : Bytes} (h : raw ++ s = header length)
    (rest : Bytes) : readRaw raw (s ++ rest) = (header length, some rest) := by
  induction s generalizing raw with
  | nil =>
    rw [List.append_nil] at h
    have hinfix : headerSeparator <:+: raw := h ▸ (List.suffix_append _ _).isInfix
    cases rest with
    | nil => rw [List.append_nil, readRaw, if_pos hinfix, h]
    | cons x rest => rw [List.nil_append, readRaw, if_pos hinfix, h]
  | cons x s ih =>
    have hinfix : ¬ headerSeparator <:+: raw := by
      apply not_infix_header ⟨x :: s, h⟩
      intro hraw
      rw [hraw] at h
      exact absurd (List.append_right_eq_self.1 h) (by simp)
    rw [List.cons_append, readRaw, if_neg hinfix]
    apply ih
    rw [List.append_assoc, List.singleton_append, h]

/-- A header that is cut is read to the end of the stream. -/
theorem readRaw_cut {length : ℕ} {raw s : Bytes} (hpre : raw ++ s <+: header length)
    (hne : raw ++ s ≠ header length) : readRaw raw s = (raw ++ s, none) := by
  induction s generalizing raw with
  | nil =>
    rw [List.append_nil] at hpre hne ⊢
    rw [readRaw, if_neg (not_infix_header hpre hne)]
  | cons x s ih =>
    have heq : raw ++ [x] ++ s = raw ++ x :: s := by simp
    have hraw : raw <+: header length := (List.prefix_append _ _).trans hpre
    have hinfix : ¬ headerSeparator <:+: raw := by
      apply not_infix_header hraw
      intro hall
      rw [← hall] at hpre
      have hlen := hpre.length_le
      rw [List.length_append, List.length_cons] at hlen
      omega
    rw [readRaw, if_neg hinfix, ih]
    · rw [heq]
    · rwa [heq]
    · rwa [heq]

theorem parseHeaders_header (length : ℕ) :
    parseHeaders (header length) =
      some (Dict.empty.set "content-length".toList (Nat.toDigits 10 length)) := by
  have hdigits := isDigits_toDigits length
  have hsplit : Bytes.splitCrlf (header length) = [headerLine length, [], []] := by
    rw [header, headerSeparator, Bytes.splitCrlf_append (notMem_headerLine length)]
    rfl
  have hline : headerLine length =
      Bytes.ascii "Content-Length".toList ++ 58 :: ([32] ++ Bytes.ascii (Nat.toDigits 10 length)) := by
    rw [headerLine, Bytes.ascii_append]
    rfl
  have hpartition : Bytes.partition 58 (headerLine length) =
      (Bytes.ascii "Content-Length".toList, [32] ++ Bytes.ascii (Nat.toDigits 10 length)) := by
    rw [hline]
    exact Bytes.partition_append (by decide) _
  have hname : Bytes.decodeAscii (Bytes.lower (Bytes.strip (Bytes.ascii "Content-Length".toList))) =
      some "content-length".toList := by decide +kernel
  have hvalue : Bytes.strip ([32] ++ Bytes.ascii (Nat.toDigits 10 length)) =
      Bytes.ascii (Nat.toDigits 10 length) := by
    apply Bytes.strip_append (by decide +kernel)
    intro x hx
    exact Bytes.isSpace_of_digit (Bytes.toNat_of_mem_digits hdigits hx).1
  have hne : headerLine length ≠ [] := by
    rw [hline]
    simp
  rw [parseHeaders, hsplit]
  simp only [List.foldlM_cons, List.foldlM_nil, if_neg hne, hpartition, hname, hvalue,
    Bytes.decodeAscii_ascii (Bytes.isAscii_of_isDigits hdigits.2)]
  rfl

theorem readHeaders_header (length : ℕ) (rest : Bytes) :
    readHeaders (header length ++ rest) =
      some (some (Dict.empty.set "content-length".toList (Nat.toDigits 10 length)), rest) := by
  have hraw : readRaw [] (header length ++ rest) = (header length, some rest) :=
    readRaw_complete (List.nil_append _) rest
  rw [readHeaders, hraw]
  simp only [parseHeaders_header, Option.map_some]

/-- A stream that ends in a header has no headers, but it has not ended before it. -/
theorem readHeaders_cut {length : ℕ} {p : Bytes} (hp : p <+: header length)
    (hne : p ≠ header length) (hnil : p ≠ []) :
    readHeaders p = some (some Dict.empty, []) := by
  have hraw : readRaw [] p = (p, none) := readRaw_cut (by rwa [List.nil_append]) (by rwa [List.nil_append])
  rw [readHeaders, hraw]
  simp only [if_neg hnil]

theorem readHeaders_nil : readHeaders [] = some (none, []) := by
  have hraw : readRaw [] [] = ([], none) := by rw [readRaw, if_neg (by decide)]
  rw [readHeaders, hraw]
  rfl

/-! ## Messages -/

theorem readMessage_nil : readMessage (F := F) [] = some (.none, []) := by
  rw [readMessage, readHeaders_nil]
  rfl

theorem contentLength_header (length : ℕ) :
    contentLength (Dict.empty.set "content-length".toList (Nat.toDigits 10 length)) =
      some (length : ℤ) := by
  rw [contentLength, Dict.get?_set_self]
  exact Bytes.parseInt_toDigits length

/-- A message that is all there is read. -/
theorem readMessage_complete {message : Value F} {text : Str} (hjson : IsJson message)
    (htext : dumpsRaw message = some text) (rest : Bytes) :
    readMessage (header (encode text).length ++ encode text ++ rest) = some (message, rest) := by
  have hread : read (encode text).length (encode text ++ rest) = (encode text, rest) := by
    rw [read, if_neg (by omega), Int.toNat_natCast, List.take_left, List.drop_left]
  have hloads : loads text = some message := loads_dumpsWith escapes_escapeRaw hjson htext
  rw [readMessage, List.append_assoc, readHeaders_header]
  simp only [Option.bind_some, contentLength_header, hread, Int.lt_irrefl, if_false,
    decodeUtf8_encode, hloads, Option.map_some]

/-- A stream that ends in a body gives `None`. -/
theorem readMessage_cutBody {length : ℕ} {body : Bytes} (h : body.length < length) :
    readMessage (F := F) (header length ++ body) = some (.none, []) := by
  have hread : read length body = (body, []) := by
    rw [read, if_neg (by omega), Int.toNat_natCast, List.take_of_length_le (by omega),
      List.drop_of_length_le (by omega)]
  rw [readMessage, readHeaders_header]
  simp only [Option.bind_some, contentLength_header, hread, Int.ofNat_lt, h, if_true]

/-- **A stream that ends in a header raises**: it is read as a header without a length, and the body
of no bytes is not JSON. -/
theorem readMessage_cutHeader {length : ℕ} {p : Bytes} (hp : p <+: header length)
    (hne : p ≠ header length) (hnil : p ≠ []) : readMessage (F := F) p = none := by
  have hread : read 0 [] = ([], []) := rfl
  have hdecode : decodeUtf8 [] = some [] := decodeUtf8_encode []
  have hloads : loads (F := F) [] = none := rfl
  rw [readMessage, readHeaders_cut hp hne hnil]
  simp only [Option.bind_some, contentLength, Dict.get?_empty, hread, List.length_nil,
    Int.ofNat_zero, Int.lt_irrefl, if_false, hdecode, hloads, Option.map_none]

end

/-! ## Streams that end anywhere -/

/-- A value that JSON can carry. -/
structure Message (F : Type) where
  value : Value F
  isJson : IsJson value

section

variable {F : Type} [PyFloat F]

namespace Message

/-- What is written for the message. -/
def written (m : Message F) : Bytes := (writeMessage m.value).getD []

def body (m : Message F) : Bytes := encode ((dumpsRaw m.value).getD [])

theorem exists_text (m : Message F) :
    ∃ text, dumpsRaw m.value = some text ∧ m.body = encode text ∧
      m.written = header (encode text).length ++ encode text := by
  obtain ⟨text, htext⟩ := exists_dumpsWith escapeRaw m.value m.isJson
  have hraw : dumpsRaw m.value = some text := htext
  refine ⟨text, hraw, ?_, ?_⟩
  · rw [body, hraw, Option.getD_some]
  · rw [written, writeMessage, hraw, Option.map_some, Option.getD_some]

theorem written_eq (m : Message F) : m.written = header m.body.length ++ m.body := by
  obtain ⟨text, -, hbody, hwritten⟩ := m.exists_text
  rw [hbody, hwritten]

/-- **What was written is read back.** -/
theorem readMessage_written (m : Message F) (rest : Bytes) :
    readMessage (m.written ++ rest) = some (m.value, rest) := by
  obtain ⟨text, htext, -, hwritten⟩ := m.exists_text
  rw [hwritten]
  exact readMessage_complete m.isJson htext rest

end Message

/-- How many of the messages are wholly in the stream that ends after so many bytes. -/
def contained : List (Message F) → ℕ → ℕ
  | [], _ => 0
  | m :: ms, cut =>
    if m.written.length ≤ cut then contained ms (cut - m.written.length) + 1 else 0

/-- The stream ends in a header: something of the header is there, but not all of it. -/
def CutInHeader : List (Message F) → ℕ → Prop
  | [], _ => False
  | m :: ms, cut =>
    if m.written.length ≤ cut then CutInHeader ms (cut - m.written.length)
    else 0 < cut ∧ cut < (header m.body.length).length

/-- The stream gives the messages that are wholly in it, and after them `None`. -/
def Recovers (ms : List (Message F)) (cut : ℕ) : Prop :=
  ∀ n, readMessages (contained ms cut + n) ((ms.flatMap Message.written).take cut) =
    some ((ms.take (contained ms cut)).map Message.value ++ List.replicate n .none)

theorem readMessages_nil (n : ℕ) :
    readMessages (F := F) n [] = some (List.replicate n .none) := by
  induction n with
  | zero => rfl
  | succ n ih =>
    rw [readMessages, readMessage_nil]
    simp only [Option.bind_some, ih, Option.map_some, List.replicate_succ]

/-- A message that is wholly in the stream comes first. -/
theorem recovers_cons {m : Message F} {ms : List (Message F)} {cut : ℕ}
    (h : m.written.length ≤ cut) : Recovers (m :: ms) cut ↔ Recovers ms (cut - m.written.length) := by
  have hstream : ((m :: ms).flatMap Message.written).take cut =
      m.written ++ (ms.flatMap Message.written).take (cut - m.written.length) := by
    rw [List.flatMap_cons, List.take_append, List.take_of_length_le h]
  have hcontained : contained (m :: ms) cut = contained ms (cut - m.written.length) + 1 := if_pos h
  unfold Recovers
  rw [hstream, hcontained]
  refine forall_congr' fun n => ?_
  rw [show contained ms (cut - m.written.length) + 1 + n =
    contained ms (cut - m.written.length) + n + 1 by omega, readMessages, m.readMessage_written]
  simp only [Option.bind_some, List.take_succ_cons]
  constructor
  · intro hrest
    obtain ⟨vs, hvs, heq⟩ := Option.map_eq_some_iff.1 hrest
    exact hvs.trans (congrArg some (List.cons.inj heq).2)
  · intro hrest
    rw [hrest]
    rfl

/-- A stream that ends in its first message. -/
theorem recovers_cut {m : Message F} {ms : List (Message F)} {cut : ℕ}
    (h : cut < m.written.length) :
    Recovers (m :: ms) cut ↔ ¬ (0 < cut ∧ cut < (header m.body.length).length) := by
  have hstream : ((m :: ms).flatMap Message.written).take cut = m.written.take cut := by
    rw [List.flatMap_cons, List.take_append_of_le_length (Nat.le_of_lt h)]
  have hcontained : contained (m :: ms) cut = 0 := if_neg (Nat.not_le.2 h)
  unfold Recovers
  rw [hstream, hcontained]
  simp only [Nat.zero_add, List.take_zero, List.map_nil, List.nil_append]
  rw [m.written_eq]
  rcases Nat.lt_or_ge cut (header m.body.length).length with hlt | hge
  · rw [List.take_append_of_le_length (Nat.le_of_lt hlt)]
    rcases Nat.eq_zero_or_pos cut with rfl | hpos
    · simp only [List.take_zero, readMessages_nil, Nat.lt_irrefl, false_and, not_false_iff]
      exact iff_of_true (fun _ => trivial) trivial
    · have hcut : readMessage (F := F) ((header m.body.length).take cut) = none := by
        apply readMessage_cutHeader (List.take_prefix _ _)
        · intro hall
          have hlen := congrArg List.length hall
          rw [List.length_take_of_le (Nat.le_of_lt hlt)] at hlen
          omega
        · rw [← List.length_pos_iff, List.length_take_of_le (Nat.le_of_lt hlt)]
          exact hpos
      simp only [hpos, hlt, and_self, not_true, iff_false]
      intro hall
      have hone := hall 1
      rw [readMessages, hcut] at hone
      exact absurd hone (by simp)
  · have hbody : (m.body.take (cut - (header m.body.length).length)).length < m.body.length := by
      rw [m.written_eq, List.length_append] at h
      rw [List.length_take_of_le (by omega)]
      omega
    rw [List.take_append, List.take_of_length_le hge]
    refine iff_of_true (fun n => ?_) (by omega)
    cases n with
    | zero => rfl
    | succ n =>
      rw [readMessages, readMessage_cutBody hbody]
      simp only [Option.bind_some, readMessages_nil, Option.map_some]
      rfl

/-- **A stream gives its messages and then `None`** if it does not end in a header. -/
theorem recovers_iff (ms : List (Message F)) (cut : ℕ) : Recovers ms cut ↔ ¬ CutInHeader ms cut := by
  induction ms generalizing cut with
  | nil =>
    refine iff_of_true (fun n => ?_) not_false
    simp [contained, readMessages_nil]
  | cons m ms ih =>
    rw [CutInHeader]
    by_cases h : m.written.length ≤ cut
    · rw [if_pos h, recovers_cons h, ih]
    · rw [if_neg h, recovers_cut (Nat.lt_of_not_le h)]

end

/-- `true` is written, and the stream ends after one byte. -/
theorem not_recovers_oneByte :
    ∃ m : Message DigitFloat, m.value = .bool true ∧ ¬ Recovers [m] 1 := by
  set m : Message DigitFloat := ⟨.bool true, trivial⟩
  refine ⟨m, rfl, ?_⟩
  have hlong : 1 < (header m.body.length).length := by decide
  rw [recovers_cut]
  · exact fun h => h ⟨Nat.one_pos, hlong⟩
  · rw [Message.written_eq, List.length_append]
    omega

end PartCAD.Service
