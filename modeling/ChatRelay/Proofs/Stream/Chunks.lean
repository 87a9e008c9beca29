import Mathlib
import ChatRelay.Stream.JsonLines

/-!
# Where chunks end does not matter

A decoder sees the bytes of a stream chunk by chunk, and a chunk may end anywhere: inside a
character, between the two newlines of an empty line, or in the middle of a value.  What it yields
is told by the bytes alone, and by the error that ends their delivery, if any.

Each decoder is compared with what is done to all bytes at once.  For events, the bytes without
carriage returns are cut at the empty lines, from the left (`Events.IsCut`), and every event yields
its item, up to the signal that ends the stream (`Events.decode_eq_batch`).  For JSON lines, the
bytes are split at the newlines, and every line yields its item (`JsonLines.decode_eq_batch_lines`).

Both proofs rest on one fact about cutting: the bytes that are left over when some bytes are cut are
all that has to be kept until more bytes come (`Events.cut_append`, `JsonLines.cut_append`).

## Main definitions

* `delivered`, `failure?` — the bytes of some chunks, and the error that ends their delivery
* `Events.IsCut` — the complete events of some bytes, and what is left over
* `Events.batch`, `JsonLines.batch` — what all bytes together come to
-/

namespace ChatRelay

/-- The bytes that are delivered before an error. -/
def delivered : List Chunk → List UInt8
  | [] => []
  | .error _ :: _ => []
  | .ok bytes :: chunks => bytes ++ delivered chunks

/-- The error that ends the delivery. -/
def failure? : List Chunk → Option Error
  | [] => none
  | .error e :: _ => some e
  | .ok _ :: chunks => failure? chunks

/-- What no error ends is delivered. -/
theorem delivered_append (chunks : List (List UInt8)) (later : List Chunk) :
    delivered (chunks.map .ok ++ later) = chunks.flatten ++ delivered later := by
  induction chunks with
  | nil => rfl
  | cons chunk chunks ih =>
      rw [List.map_cons, List.cons_append, delivered, ih, List.flatten_cons, List.append_assoc]

theorem delivered_map_ok (chunks : List (List UInt8)) :
    delivered (chunks.map .ok) = chunks.flatten := by
  have h := delivered_append chunks []
  rwa [List.append_nil, delivered, List.append_nil] at h

theorem failure?_map_ok (chunks : List (List UInt8)) : failure? (chunks.map .ok) = none := by
  induction chunks with
  | nil => rfl
  | cons chunk chunks ih => exact ih

namespace Events

/-- The bytes that count: carriage returns do not. -/
def withoutReturns (bytes : List UInt8) : List UInt8 :=
  bytes.filter (· ≠ carriageReturn)

theorem withoutReturns_append (bytes later : List UInt8) :
    withoutReturns (bytes ++ later) = withoutReturns bytes ++ withoutReturns later :=
  List.filter_append _ _

/-! ### Cutting at empty lines -/

/-- The end of an event: the newline that ends its last line, and an empty line. -/
def separator : List UInt8 := [newline, newline]

/-- Bytes are cut into complete events and a remainder: at every empty line, from the left, and no
byte twice. -/
structure IsCut (bytes : List UInt8) (frames : List (List UInt8)) (rest : List UInt8) : Prop where
  bytes_eq : bytes = (frames.flatMap fun frame => frame ++ separator) ++ rest
  /-- No event holds the end of another, and none ends before its end. -/
  frames_whole : ∀ frame ∈ frames, ¬ separator <:+: frame ++ [newline]
  rest_whole : ¬ separator <:+: rest

variable {bytes rest : List UInt8} {frames : List (List UInt8)}

theorem not_separator_infix_singleton (b : UInt8) : ¬ separator <:+: [b] := by
  intro h
  have := h.length_le
  simp [separator] at this

/-- An empty line stands at the front, or behind the first byte. -/
theorem separator_infix_cons_cons_iff {a b : UInt8} :
    separator <:+: a :: b :: bytes ↔ (a = newline ∧ b = newline) ∨ separator <:+: b :: bytes := by
  rw [List.infix_cons_iff]
  simp [separator, eq_comm]

theorem cutFirst_cons_cons (a b : UInt8) (bytes : List UInt8) :
    cutFirst (a :: b :: bytes) = if a = newline ∧ b = newline then some ([], bytes)
      else (cutFirst (b :: bytes)).map fun cut => (a :: cut.1, cut.2) := by
  simp [cutFirst]

/-- Nothing is cut off where there is no empty line. -/
theorem cutFirst_eq_none_iff : cutFirst bytes = none ↔ ¬ separator <:+: bytes := by
  induction bytes with
  | nil => simp [cutFirst, separator]
  | cons a bytes ih =>
      cases bytes with
      | nil => simp [cutFirst, not_separator_infix_singleton]
      | cons b bytes =>
          rw [cutFirst_cons_cons, separator_infix_cons_cons_iff]
          by_cases hab : a = newline ∧ b = newline
          · simp [hab]
          · simp [hab, ih]

/-- The first event ends at the first empty line. -/
theorem cutFirst_append {frame : List UInt8} (h : ¬ separator <:+: frame ++ [newline])
    (bytes : List UInt8) : cutFirst (frame ++ (separator ++ bytes)) = some (frame, bytes) := by
  induction frame with
  | nil => simp [separator, cutFirst_cons_cons]
  | cons a frame ih =>
      cases frame with
      | nil =>
          have ha : a ≠ newline := by
            rintro rfl
            exact h List.infix_rfl
          simp [separator, cutFirst_cons_cons, ha]
      | cons b frame =>
          simp only [List.cons_append, separator_infix_cons_cons_iff, not_or] at h ih ⊢
          rw [cutFirst_cons_cons, if_neg h.1, ih h.2]
          rfl

theorem eq_append_of_cutFirst {frame : List UInt8} (h : cutFirst bytes = some (frame, rest)) :
    bytes = frame ++ (separator ++ rest) ∧ ¬ separator <:+: frame ++ [newline] := by
  induction bytes generalizing frame with
  | nil => simp [cutFirst] at h
  | cons a bytes ih =>
      cases bytes with
      | nil => simp [cutFirst] at h
      | cons b bytes =>
          rw [cutFirst_cons_cons] at h
          split at h
          · next hab =>
            cases h
            exact ⟨by simp [separator, hab], not_separator_infix_singleton _⟩
          · next hab =>
            obtain ⟨⟨frame', rest'⟩, hcut, hframe⟩ := Option.map_eq_some_iff.mp h
            cases hframe
            obtain ⟨hbytes, hwhole⟩ := ih hcut
            refine ⟨congrArg (a :: ·) hbytes, ?_⟩
            -- The event goes on with `b`, or it is over and `b` is a newline.
            obtain ⟨later, hlater⟩ : ∃ later, frame' ++ [newline] = b :: later := by
              cases frame' with
              | nil =>
                  cases hbytes
                  exact ⟨[], rfl⟩
              | cons c frame' =>
                  cases hbytes
                  exact ⟨frame' ++ [newline], rfl⟩
            rw [hlater] at hwhole
            rw [List.cons_append, hlater, separator_infix_cons_cons_iff]
            exact not_or.mpr ⟨hab, hwhole⟩

theorem isCut_of_whole (h : ¬ separator <:+: bytes) : IsCut bytes [] bytes :=
  ⟨rfl, by simp, h⟩

theorem IsCut.cons {frame : List UInt8} (hframe : ¬ separator <:+: frame ++ [newline])
    (h : IsCut bytes frames rest) :
    IsCut (frame ++ (separator ++ bytes)) (frame :: frames) rest := by
  refine ⟨?_, ?_, h.rest_whole⟩
  · conv_lhs => rw [h.bytes_eq]
    simp
  · simpa using ⟨hframe, h.frames_whole⟩

/-- There is enough fuel for all events. -/
theorem isCut_cutAll {fuel : Nat} (hfuel : bytes.length ≤ fuel) :
    IsCut bytes (cutAll fuel bytes).1 (cutAll fuel bytes).2 := by
  induction fuel generalizing bytes with
  | zero =>
      rw [List.eq_nil_of_length_eq_zero (Nat.le_zero.mp hfuel)]
      exact isCut_of_whole (by simp [separator])
  | succ fuel ih =>
      unfold cutAll
      split
      · next hcut => exact isCut_of_whole (cutFirst_eq_none_iff.mp hcut)
      · next frame later hcut =>
        obtain ⟨rfl, hframe⟩ := eq_append_of_cutFirst hcut
        refine (ih ?_).cons hframe
        simp [separator] at hfuel
        omega

theorem isCut_cut (bytes : List UInt8) : IsCut bytes (cut bytes).1 (cut bytes).2 :=
  isCut_cutAll (Nat.le_refl _)

theorem IsCut.tail {frame : List UInt8} (h : IsCut bytes (frame :: frames) rest) :
    ∃ later, bytes = frame ++ (separator ++ later) ∧ ¬ separator <:+: frame ++ [newline] ∧
      IsCut later frames rest := by
  obtain ⟨hframe, hframes⟩ := List.forall_mem_cons.mp h.frames_whole
  exact ⟨_, by simp [h.bytes_eq], hframe, rfl, hframes, h.rest_whole⟩

theorem IsCut.cutAll_eq (h : IsCut bytes frames rest) {fuel : Nat} (hfuel : bytes.length ≤ fuel) :
    cutAll fuel bytes = (frames, rest) := by
  induction frames generalizing bytes fuel with
  | nil =>
      obtain rfl : bytes = rest := h.bytes_eq
      cases fuel with
      | zero => rfl
      | succ fuel => rw [cutAll, cutFirst_eq_none_iff.mpr h.rest_whole]
  | cons frame frames ih =>
      obtain ⟨later, rfl, hframe, hlater⟩ := h.tail
      simp only [separator, List.length_append, List.length_cons, List.length_nil] at hfuel
      obtain ⟨fuel, rfl⟩ := Nat.exists_eq_add_of_lt (show 0 < fuel by omega)
      rw [Nat.zero_add, cutAll, cutFirst_append hframe]
      simp only [ih hlater (show later.length ≤ fuel by omega)]

/-- **Bytes are cut in one way only.** -/
theorem isCut_iff : IsCut bytes frames rest ↔ cut bytes = (frames, rest) := by
  constructor
  · exact fun h => h.cutAll_eq (Nat.le_refl _)
  · intro h
    have hcut := isCut_cut bytes
    rwa [h] at hcut

/-- **What is left over is all that has to be kept until more bytes come.** -/
theorem cut_append (bytes later : List UInt8) :
    cut (bytes ++ later) = ((cut bytes).1 ++ (cut ((cut bytes).2 ++ later)).1,
      (cut ((cut bytes).2 ++ later)).2) := by
  have hcut := isCut_cut bytes
  have hlater := isCut_cut ((cut bytes).2 ++ later)
  refine isCut_iff.mp ⟨?_, ?_, hlater.rest_whole⟩
  · conv_lhs => rw [hcut.bytes_eq, List.append_assoc, hlater.bytes_eq]
    rw [List.flatMap_append, List.append_assoc]
  · intro frame hframe
    exact (List.mem_append.mp hframe).elim (hcut.frames_whole frame) (hlater.frames_whole frame)

/-- Nothing more is cut off from what is left over. -/
theorem cut_rest (bytes : List UInt8) : cut (cut bytes).2 = ([], (cut bytes).2) :=
  isCut_iff.mp (isCut_of_whole (isCut_cut bytes).rest_whole)

/-! ### What events come to -/

/-- The data of an event without the blanks at its two ends, if anything is left. -/
def payload? (frame : List UInt8) : Option (List Char) :=
  ((data? (Utf8.decodeFrom .start frame)).map Text.trimChars).filter (· ≠ [])

/-- What a payload comes to: its value, or an error that quotes it. -/
def itemOf (payload : List Char) : Result Json :=
  ((Json.read? (String.ofList payload)).map .ok).getD (.error (malformedPayload payload))

/-- What some payloads come to, up to the signal that ends the stream. -/
def itemsBefore (done : String) (payloads : List (List Char)) : List (Result Json) :=
  (payloads.takeWhile (· ≠ done.toList)).map itemOf

/-- What a stream comes to, given its complete events, what is left over, and the error that ends
its delivery, if any.  At the end of the stream the remainder is one more event; an error drops it,
and comes last.  Nothing follows the signal. -/
def batch (done : String) (frames : List (List UInt8)) (rest : List UInt8)
    (failure? : Option Error) : List (Result Json) :=
  let payloads := frames.filterMap payload?
  itemsBefore done payloads ++
    if done.toList ∈ payloads then []
    else failure?.elim (itemsBefore done (payload? rest).toList) fun e => [.error e]

/-- What an event says is told by its payload. -/
theorem read_eq (done : String) (frame : List UInt8) : read done frame =
    (payload? frame).elim .silent fun payload =>
      if payload = done.toList then .done
      else (Json.read? (String.ofList payload)).elim (.malformed (malformedPayload payload))
        .value := by
  unfold read payload?
  cases data? (Utf8.decodeFrom .start frame) with
  | none => rfl
  | some data =>
      by_cases hblank : Text.trimChars data = []
      · simp [hblank, Option.filter]
      · have hsome : (Option.map Text.trimChars (some data)).filter (· ≠ []) =
            some (Text.trimChars data) := by simp [hblank]
        rw [hsome]
        simp only [List.isEmpty_iff, hblank, if_false, Option.elim_some]
        split
        · rfl
        · cases Json.read? (String.ofList (Text.trimChars data)) <;> rfl

/-- Events yield what their payloads come to, up to the signal. -/
theorem readAll_eq (done : String) (frames : List (List UInt8)) : readAll done frames =
    (itemsBefore done (frames.filterMap payload?),
      decide (done.toList ∈ frames.filterMap payload?)) := by
  induction frames with
  | nil => rfl
  | cons frame frames ih =>
      rw [readAll, read_eq]
      cases hpayload : payload? frame with
      | none => simp [ih, hpayload]
      | some payload =>
          by_cases hdone : payload = done.toList
          · simp [hpayload, hdone, itemsBefore]
          · have hne : done.toList ≠ payload := fun h => hdone h.symm
            cases hread : Json.read? (String.ofList payload) with
            | none => simp [ih, hpayload, hdone, hne, hread, itemsBefore, itemOf]
            | some v => simp [ih, hpayload, hdone, hne, hread, itemsBefore, itemOf]

theorem itemsBefore_append (done : String) (payloads later : List (List Char)) :
    itemsBefore done (payloads ++ later) = itemsBefore done payloads ++
      if done.toList ∈ payloads then [] else itemsBefore done later := by
  induction payloads with
  | nil => rfl
  | cons payload payloads ih =>
      by_cases hdone : payload = done.toList
      · simp [itemsBefore, hdone]
      · have hne : done.toList ≠ payload := fun h => hdone h.symm
        have hcons (rest : List (List Char)) : itemsBefore done (payload :: rest) =
            itemOf payload :: itemsBefore done rest := by simp [itemsBefore, hdone]
        rw [List.cons_append, hcons, hcons, ih]
        simp [hne]

/-- What follows some events follows what they come to, unless the signal is among them. -/
theorem batch_append (done : String) (frames later : List (List UInt8)) (rest : List UInt8)
    (failure? : Option Error) : batch done (frames ++ later) rest failure? =
      itemsBefore done (frames.filterMap payload?) ++
        if done.toList ∈ frames.filterMap payload? then [] else batch done later rest failure? := by
  simp only [batch, List.filterMap_append, itemsBefore_append, List.append_assoc]
  by_cases hdone : done.toList ∈ frames.filterMap payload?
  · simp [hdone]
  · simp [hdone]

theorem decodeFrom_ok (done : String) (kept bytes : List UInt8) (chunks : List Chunk) :
    decodeFrom done kept (.ok bytes :: chunks) =
      itemsBefore done ((cut (kept ++ withoutReturns bytes)).1.filterMap payload?) ++
        if done.toList ∈ (cut (kept ++ withoutReturns bytes)).1.filterMap payload? then []
        else decodeFrom done (cut (kept ++ withoutReturns bytes)).2 chunks := by
  have hdecode : decodeFrom done kept (.ok bytes :: chunks) =
      if (readAll done (cut (kept ++ withoutReturns bytes)).1).2 then
        (readAll done (cut (kept ++ withoutReturns bytes)).1).1
      else (readAll done (cut (kept ++ withoutReturns bytes)).1).1 ++
        decodeFrom done (cut (kept ++ withoutReturns bytes)).2 chunks := rfl
  rw [hdecode, readAll_eq]
  by_cases hdone : done.toList ∈ (cut (kept ++ withoutReturns bytes)).1.filterMap payload?
  · simp [hdone]
  · simp [hdone]

/-- **Chunk by chunk, the bytes that are kept and those that come yield what they do together.** -/
theorem decodeFrom_eq (done : String) (chunks : List Chunk) {kept : List UInt8}
    (hkept : cut kept = ([], kept)) :
    decodeFrom done kept chunks =
      batch done (cut (kept ++ withoutReturns (delivered chunks))).1
        (cut (kept ++ withoutReturns (delivered chunks))).2 (failure? chunks) := by
  induction chunks generalizing kept with
  | nil =>
      have hnothing : withoutReturns (delivered []) = [] := rfl
      rw [decodeFrom, readAll_eq, hnothing, List.append_nil, hkept]
      cases hpayload : payload? kept with
      | none => simp [failure?, batch, hpayload, itemsBefore]
      | some payload => simp [failure?, batch, hpayload, itemsBefore]
  | cons chunk chunks ih =>
      cases chunk with
      | error e =>
          have hnothing : withoutReturns (delivered (.error e :: chunks)) = [] := rfl
          rw [hnothing, List.append_nil, hkept]
          rfl
      | ok bytes =>
          have hcut := cut_append (kept ++ withoutReturns bytes) (withoutReturns (delivered chunks))
          rw [decodeFrom_ok, ih (cut_rest _), delivered, withoutReturns_append, ← List.append_assoc,
            hcut, batch_append]
          rfl

/-- **Events are decoded as if all bytes came at once.**  The bytes, without carriage returns, are
cut at the empty lines in the one way there is.  The events yield what their payloads come to, up to
the signal that ends the stream; an event without a payload yields nothing.  At the end of the
stream the remainder is one more event, and an error that ends the delivery comes last.  So it does
not matter where chunks end. -/
theorem decode_eq_batch (done : String) (chunks : List Chunk) :
    (∃ frames rest,
      (∀ frames' rest', IsCut (withoutReturns (delivered chunks)) frames' rest' ↔
        frames' = frames ∧ rest' = rest) ∧
      decode done chunks = batch done frames rest (failure? chunks)) ∧
    ∀ chunks', delivered chunks' = delivered chunks → failure? chunks' = failure? chunks →
      decode done chunks' = decode done chunks := by
  have hdecode (chunks : List Chunk) : decode done chunks =
      batch done (cut (withoutReturns (delivered chunks))).1
        (cut (withoutReturns (delivered chunks))).2 (failure? chunks) :=
    decodeFrom_eq done chunks rfl
  refine ⟨⟨_, _, fun frames' rest' => ?_, hdecode chunks⟩, fun chunks' hbytes hfailure => ?_⟩
  · rw [isCut_iff, Prod.ext_iff]
    exact and_congr eq_comm eq_comm
  · rw [hdecode, hdecode, hbytes, hfailure]

/-- The event of a text that takes two bytes a character. -/
def accent : List UInt8 :=
  Utf8.encode "data: \"é\"\n\n"

/-- The same event in chunks that end inside the character and inside the empty line. -/
def accentSplit : List Chunk :=
  [.ok (accent.take 8), .ok [], .ok ((accent.drop 8).take 3), .ok (accent.drop 11)]

theorem decode_eq_batch_accent :
    delivered accentSplit = delivered [.ok accent] ∧
      decode doneSignal accentSplit = [.ok (.text "é")] := by
  have hbytes : delivered accentSplit = delivered [.ok accent] := by decide_cbv
  have hwhole : decode doneSignal [.ok accent] = [.ok (.text "é")] := by decide_cbv
  exact ⟨hbytes, ((decode_eq_batch doneSignal [.ok accent]).2 accentSplit hbytes rfl).trans hwhole⟩

end Events

namespace JsonLines

open Events (newline)

/-! ### Cutting at newlines -/

/-- The complete lines and what is left over are all lines. -/
theorem splitOn_newline (bytes : List UInt8) :
    bytes.splitOn newline = (cut bytes).1 ++ [(cut bytes).2] := by
  induction bytes with
  | nil => rfl
  | cons b bytes ih =>
      rw [List.splitOn_cons_eq_if_modifyHead, ih, cut]
      by_cases hb : b = newline
      · simp [hb]
      · simp only [beq_iff_eq, hb, if_false]
        cases (cut bytes).1 <;> rfl

/-- **What is left over is all that has to be kept until more bytes come.** -/
theorem cut_append (bytes later : List UInt8) :
    cut (bytes ++ later) = ((cut bytes).1 ++ (cut ((cut bytes).2 ++ later)).1,
      (cut ((cut bytes).2 ++ later)).2) := by
  induction bytes with
  | nil => rfl
  | cons b bytes ih =>
      rw [List.cons_append, cut, ih, cut]
      by_cases hb : b = newline
      · simp [hb]
      · cases hcut : (cut bytes).1 with
        | nil => simp [hb, hcut, cut]
        | cons line lines => simp [hb, hcut]

/-- Nothing more is cut off from what is left over. -/
theorem cut_rest (bytes : List UInt8) : cut (cut bytes).2 = ([], (cut bytes).2) := by
  induction bytes with
  | nil => rfl
  | cons b bytes ih =>
      rw [cut]
      by_cases hb : b = newline
      · simpa [hb] using ih
      · cases hcut : (cut bytes).1 with
        | nil => simp [hb, hcut, cut, ih]
        | cons line lines => simp [hb, hcut, ih]

/-! ### What lines come to -/

/-- The text of a line without the blanks at its two ends. -/
def textOf (line : List UInt8) : List Char :=
  Text.trimChars (Utf8.decodeFrom .start line)

/-- What the text of a line comes to: its value, or an error. -/
def itemOf (text : List Char) : Result Json :=
  ((Json.read? (String.ofList text)).map .ok).getD (.error .malformedJson)

/-- What some lines come to: one item for each of them that is not blank. -/
def items (lines : List (List UInt8)) : List (Result Json) :=
  ((lines.map textOf).filter (· ≠ [])).map itemOf

/-- What a stream comes to, given all its lines, the last of which no newline ends, and the error
that ends its delivery, if any.  An error drops the last line, and comes last. -/
def batch (lines : List (List UInt8)) (failure? : Option Error) : List (Result Json) :=
  failure?.elim (items lines) fun e => items lines.dropLast ++ [.error e]

theorem read_eq (line : List UInt8) :
    read line = if textOf line = [] then none else some (itemOf (textOf line)) := by
  unfold read textOf itemOf
  simp only [List.isEmpty_iff]
  split
  · rfl
  · cases Json.read? (String.ofList (Text.trimChars (Utf8.decodeFrom .start line))) <;> rfl

theorem filterMap_read (lines : List (List UInt8)) : lines.filterMap read = items lines := by
  induction lines with
  | nil => rfl
  | cons line lines ih =>
      by_cases hblank : textOf line = []
      · rw [List.filterMap_cons_none (by rw [read_eq, if_pos hblank]), ih]
        simp [items, hblank]
      · rw [List.filterMap_cons_some (by rw [read_eq, if_neg hblank]), ih]
        simp [items, hblank]

theorem items_append (lines later : List (List UInt8)) :
    items (lines ++ later) = items lines ++ items later := by
  simp [items]

/-- What follows some lines follows what they come to. -/
theorem batch_append (lines : List (List UInt8)) {later : List (List UInt8)} (hlater : later ≠ [])
    (failure? : Option Error) :
    batch (lines ++ later) failure? = items lines ++ batch later failure? := by
  cases failure? with
  | none => exact items_append lines later
  | some e => simp [batch, List.dropLast_append_of_ne_nil hlater, items_append]

/-- **Chunk by chunk, the bytes that are kept and those that come yield what they do together.** -/
theorem decodeFrom_eq (chunks : List Chunk) {kept : List UInt8} (hkept : cut kept = ([], kept)) :
    decodeFrom kept chunks =
      batch ((kept ++ delivered chunks).splitOn newline) (failure? chunks) := by
  induction chunks generalizing kept with
  | nil =>
      rw [delivered, List.append_nil, splitOn_newline, hkept, decodeFrom, failure?, batch,
        Option.elim_none, ← filterMap_read]
      cases hread : read kept <;> simp [hread]
  | cons chunk chunks ih =>
      cases chunk with
      | error e =>
          rw [delivered, List.append_nil, splitOn_newline, hkept]
          rfl
      | ok bytes =>
          have hsplit : (kept ++ (bytes ++ delivered chunks)).splitOn newline =
              (cut (kept ++ bytes)).1 ++
                ((cut (kept ++ bytes)).2 ++ delivered chunks).splitOn newline := by
            rw [← List.append_assoc, splitOn_newline, splitOn_newline, cut_append,
              List.append_assoc]
          have hdecode : decodeFrom kept (.ok bytes :: chunks) =
              (cut (kept ++ bytes)).1.filterMap read ++
                decodeFrom (cut (kept ++ bytes)).2 chunks := rfl
          rw [hdecode, ih (cut_rest _), filterMap_read, delivered, hsplit,
            batch_append _ (List.splitOn_ne_nil _ _)]
          rfl

/-- **JSON lines are decoded as if all bytes came at once.**  The bytes are split at the newlines,
and each line that is not blank yields one item, a malformed one an error.  The last line, which no
newline ends, counts at the end of the stream; an error that ends the delivery drops it, and comes
last.  So it does not matter where chunks end. -/
theorem decode_eq_batch_lines (chunks : List Chunk) :
    decode chunks = batch ((delivered chunks).splitOn newline) (failure? chunks) ∧
    ∀ chunks', delivered chunks' = delivered chunks → failure? chunks' = failure? chunks →
      decode chunks' = decode chunks := by
  have hdecode (chunks : List Chunk) :
      decode chunks = batch ((delivered chunks).splitOn newline) (failure? chunks) :=
    decodeFrom_eq chunks rfl
  refine ⟨hdecode chunks, fun chunks' hbytes hfailure => ?_⟩
  rw [hdecode, hdecode, hbytes, hfailure]

/-- A line, one that is malformed, and a line that no newline ends. -/
def threeLines : List UInt8 :=
  Utf8.encode "\"é\"\n\x7b\n[]"

/-- The same lines in chunks that end inside a character and inside a line, and then an error. -/
def threeLinesSplit : List Chunk :=
  [.ok (threeLines.take 2), .ok ((threeLines.drop 2).take 3), .ok (threeLines.drop 5),
    .error .cancelled]

/-- The error drops the last line. -/
theorem decode_eq_batch_threeLines :
    delivered threeLinesSplit = delivered [.ok threeLines, .error .cancelled] ∧
      decode threeLinesSplit = [.ok (.text "é"), .error .malformedJson, .error .cancelled] := by
  have hbytes : delivered threeLinesSplit = delivered [.ok threeLines, .error .cancelled] := by
    decide_cbv
  have hwhole : decode [.ok threeLines, .error .cancelled] =
      [.ok (.text "é"), .error .malformedJson, .error .cancelled] := by decide_cbv
  exact ⟨hbytes, ((decode_eq_batch_lines [.ok threeLines, .error .cancelled]).2 threeLinesSplit
    hbytes rfl).trans hwhole⟩

end JsonLines

end ChatRelay
