import Mathlib
import ChatRelay.Proofs.Json.Layout
import ChatRelay.Proofs.Stream.Chunks
import ChatRelay.Proofs.Text.Utf8

/-!
# What is written is read

A stream that carries some values yields just these values, wherever its chunks end
(`StreamFormat.decode_of_writes`).

As events, a value may be laid out over several data lines, at white space between its lexemes;
comments and other fields may stand among them, and events without data among the events.  Three
things could go wrong, and do not.  Every line of an event begins with a name, so that no event is
cut in two (`Events.payloads_append`).  What a reader drops from the data lines, carriage returns
and a blank after the colon, is white space between lexemes (`Events.payload?_of_holds`).  The
signal that ends the stream is no value (`Events.Carry.payloads`).

As JSON lines, a value is its compact text, which is one line.

## Main definitions

* `Events.Event`, `Events.Event.bytes` — an event as it is written
* `Events.Carry` — some events carry some values
* `Events.Writes`, `JsonLines.Writes` — some bytes are a stream of some values
-/

namespace ChatRelay

theorem Text.trimChars_of_isBlank {cs : List Char} (h : ∀ c ∈ cs, Text.isBlank c = true) :
    Text.trimChars cs = [] := by
  rw [Text.trimChars, List.dropWhile_eq_nil_iff.mpr h]
  rfl

/-- The end of a line. -/
inductive LineEnd where
  | newline
  | returnNewline

/-- What comes before the newline. -/
def LineEnd.returns : LineEnd → List Char
  | .newline => []
  | .returnNewline => ['\r']

def LineEnd.bytes (ending : LineEnd) : List UInt8 :=
  Utf8.encodeChars ending.returns ++ [Events.newline]

namespace Events

/-! ### Events as they are written -/

/-- What a line may say besides data. -/
inductive Field where
  | comment
  | event
  | id
  | retry

/-- How such a line begins. -/
def Field.opening : Field → String
  | .comment => ":"
  | .event => "event:"
  | .id => "id:"
  | .retry => "retry:"

/-- A line of an event. -/
inductive Line where
  /-- A line of data; a blank may stand after the colon. -/
  | data (gap : Bool) (text : List Char) (whole : '\n' ∉ text)
  /-- Anything else. What follows the name need not be text. -/
  | other (field : Field) (rest : List UInt8) (whole : newline ∉ rest)

def Line.bytes : Line → List UInt8
  | .data gap text _ => Utf8.encodeChars ("data:".toList ++ ((if gap then [' '] else []) ++ text))
  | .other field rest _ => Utf8.encodeChars field.opening.toList ++ rest

/-- The text of a line of data. -/
def Line.text? : Line → Option (List Char)
  | .data _ text _ => some text
  | .other .. => none

/-- Some lines, and the empty line that ends an event. -/
structure Event where
  lines : List (Line × LineEnd)
  ending : LineEnd

namespace Event

def bytes (e : Event) : List UInt8 :=
  (e.lines.flatMap fun line => line.1.bytes ++ line.2.bytes) ++ e.ending.bytes

/-- The texts of the lines of data. -/
def texts (e : Event) : List (List Char) :=
  e.lines.filterMap fun line => line.1.text?

/-- The lines of data are the lines of the text of a value, with white space where it may stand. -/
def Holds (e : Event) (v : Json) : Prop :=
  ∃ text, Json.Spaced (Json.lexemes v) text ∧ e.texts = text.splitOn '\n'

/-- The compact text of a value is one of its texts. -/
theorem holds_of_compact {e : Event} {v : Json} (h : e.texts = [v.write.toList]) : e.Holds v := by
  rw [Json.write, String.toList_ofList] at h
  refine ⟨Json.writeChars v, ?_, ?_⟩
  · rw [← Json.flatten_lexemes]
    exact Json.spaced_flatten _
  · rw [h, List.splitOn_eq_singleton (Json.newline_not_mem_writeChars v)]

/-- There is no data. -/
def IsKeepAlive (e : Event) : Prop :=
  ∀ text ∈ e.texts, ∀ c ∈ text, Text.isBlank c = true

/-- The signal that ends the stream. -/
def IsDone (e : Event) : Prop :=
  e.texts = [doneSignal.toList]

end Event

/-- One event for each value, and events without data among them. -/
inductive Carry : List Event → List Json → Prop
  | nil : Carry [] []
  | value {e : Event} {v : Json} {es : List Event} {vs : List Json} (h : e.Holds v)
      (hs : Carry es vs) : Carry (e :: es) (v :: vs)
  | keepAlive {e : Event} {es : List Event} {vs : List Json} (h : e.IsKeepAlive)
      (hs : Carry es vs) : Carry (e :: es) vs

/-- A stream of some values: events that carry them, the signal, and any bytes. -/
def Writes (vs : List Json) (bytes : List UInt8) : Prop :=
  ∃ (events : List Event) (last : Event) (rest : List UInt8), Carry events vs ∧ last.IsDone ∧
    bytes = events.flatMap Event.bytes ++ (last.bytes ++ rest)

/-! ### What a reader makes of a line -/

/-- A text without carriage returns, and perhaps without a blank at the front. -/
def Reads (text said : List Char) : Prop :=
  said = text.filter (· ≠ '\r') ∨ ' ' :: said = text.filter (· ≠ '\r')

/-- A line as it is decoded. -/
def Line.decoded (l : Line) : List Char :=
  Utf8.decodeFrom .start (withoutReturns l.bytes)

theorem withoutReturns_encodeChars (cs : List Char) :
    withoutReturns (Utf8.encodeChars cs) = Utf8.encodeChars (cs.filter (· ≠ '\r')) :=
  Utf8.filter_encodeChars cs

/-- One blank behind the colon does not count. -/
theorem lineData?_data (text : List Char) : ∃ said,
    lineData? ("data:".toList ++ text) = some said ∧ (said = text ∨ ' ' :: said = text) := by
  cases text with
  | nil => exact ⟨[], rfl, .inl rfl⟩
  | cons c text =>
      by_cases hc : c = ' '
      · subst hc
        exact ⟨text, rfl, .inr rfl⟩
      · refine ⟨c :: text, ?_, .inl rfl⟩
        have hfront :
            "data:".toList.isPrefixOf? ("data:".toList ++ c :: text) = some (c :: text) := rfl
        rw [lineData?, hfront]
        simp [hc]

theorem lineData?_other (field : Field) (rest : List Char) :
    lineData? (field.opening.toList ++ rest) = none := by
  cases field <;> rfl

theorem Line.decoded_data (gap : Bool) (text : List Char) (whole : '\n' ∉ text) :
    (Line.data gap text whole).decoded =
      "data:".toList ++ ((if gap then [' '] else []) ++ text.filter (· ≠ '\r')) := by
  have hname : "data:".toList.filter (· ≠ '\r') = "data:".toList := rfl
  have hgap : (if gap = true then [' '] else []).filter (· ≠ '\r') =
      if gap = true then [' '] else [] := by cases gap <;> rfl
  rw [Line.decoded, Line.bytes, withoutReturns_encodeChars, Utf8.decodeFrom_start_encodeChars,
    List.filter_append, List.filter_append, hname, hgap]

theorem Line.decoded_other (field : Field) (rest : List UInt8) (whole : newline ∉ rest) :
    (Line.other field rest whole).decoded =
      field.opening.toList ++ Utf8.decodeFrom .start (withoutReturns rest) := by
  have hopening : field.opening.toList.filter (· ≠ '\r') = field.opening.toList := by
    cases field <;> rfl
  rw [Line.decoded, Line.bytes, withoutReturns_append, withoutReturns_encodeChars, hopening,
    Utf8.decodeFrom_encodeChars]

/-- The data of a line are its text, as far as it matters. -/
theorem Line.reads (l : Line) : Option.Rel Reads l.text? (lineData? l.decoded) := by
  cases l with
  | other field rest _ =>
      rw [Line.decoded_other, lineData?_other]
      exact .none
  | data gap text _ =>
      rw [Line.decoded_data]
      cases gap with
      | true => exact .some (.inl rfl)
      | false =>
          obtain ⟨said, hsaid, hread⟩ := lineData?_data (text.filter (· ≠ '\r'))
          rw [show (if false = true then [' '] else []) = [] from rfl, List.nil_append, hsaid]
          exact .some hread

theorem Line.newline_not_mem (l : Line) : newline ∉ withoutReturns l.bytes := by
  refine fun hmem => absurd (List.mem_of_mem_filter hmem) ?_
  cases l with
  | data gap text whole =>
      refine Utf8.newline_not_mem_encodeChars ?_
      cases gap <;> simpa using whole
  | other field rest whole =>
      rw [Line.bytes, List.mem_append, not_or]
      exact ⟨by cases field <;> decide, whole⟩

theorem Line.newline_not_mem_decoded (l : Line) : '\n' ∉ l.decoded :=
  Utf8.not_mem_decodeFrom (s := .start) trivial l.newline_not_mem

/-- Every line begins with a name, be it an empty one with a colon. -/
theorem Line.withoutReturns_ne_nil (l : Line) : withoutReturns l.bytes ≠ [] := by
  intro hnil
  have hdecoded : l.decoded = [] := by
    rw [Line.decoded, hnil]
    rfl
  cases l with
  | data gap text _ => simp [Line.decoded_data] at hdecoded
  | other field rest _ => cases field <;> simp [Line.decoded_other, Field.opening] at hdecoded

/-! ### What a reader makes of an event -/

theorem lines_append {l : List Char} (h : '\n' ∉ l) (cs : List Char) :
    lines (l ++ '\n' :: cs) = l :: lines cs := by
  induction l with
  | nil => rfl
  | cons c l ih =>
      simp only [List.mem_cons, not_or] at h
      rw [List.cons_append, lines, if_neg (Ne.symm h.1), ih h.2]

/-- The bytes of some lines, without carriage returns. -/
def body (ls : List (Line × LineEnd)) : List UInt8 :=
  ls.flatMap fun line => withoutReturns line.1.bytes ++ [newline]

theorem body_cons (line : Line × LineEnd) (ls : List (Line × LineEnd)) :
    body (line :: ls) = withoutReturns line.1.bytes ++ newline :: body ls := by
  rw [body, List.flatMap_cons, List.append_assoc]
  rfl

theorem LineEnd.withoutReturns_bytes (ending : LineEnd) :
    withoutReturns ending.bytes = [newline] := by
  cases ending <;> rfl

theorem Event.withoutReturns_bytes (e : Event) :
    withoutReturns e.bytes = body e.lines ++ [newline] := by
  rw [Event.bytes, withoutReturns_append, LineEnd.withoutReturns_bytes]
  congr 1
  induction e.lines with
  | nil => rfl
  | cons line ls ih =>
      rw [List.flatMap_cons, withoutReturns_append, withoutReturns_append, ih, body_cons,
        LineEnd.withoutReturns_bytes, List.append_assoc]
      rfl

/-- What the data lines of an event say. -/
def said (frame : List UInt8) : List (List Char) :=
  (lines (Utf8.decodeFrom .start frame)).filterMap lineData?

theorem payload?_eq (frame : List UInt8) : payload? frame =
    (some (Text.trimChars (['\n'].intercalate (said frame)))).filter (· ≠ []) := by
  rw [payload?, data?, said]
  cases (lines (Utf8.decodeFrom .start frame)).filterMap lineData? with
  | nil => rfl
  | cons l ls => rfl

theorem payload?_congr {frame frame' : List UInt8} (h : said frame = said frame') :
    payload? frame = payload? frame' := by
  rw [payload?_eq, payload?_eq, h]

theorem lines_body (ls : List (Line × LineEnd)) :
    lines (Utf8.decodeFrom .start (body ls)) = ls.map fun line => line.1.decoded := by
  induction ls with
  | nil => rfl
  | cons line ls ih =>
      have hline : Utf8.decodeFrom .start (body (line :: ls)) =
          line.1.decoded ++ '\n' :: Utf8.decodeFrom .start (body ls) := by
        rw [body_cons]
        exact Utf8.decodeFrom_append_newline (s := .start) trivial _ _
      rw [hline, lines_append line.1.newline_not_mem_decoded, ih, List.map_cons]

/-- The data of an event are the texts of its lines, as far as it matters. -/
theorem Event.reads (e : Event) : List.Forall₂ Reads e.texts (said (body e.lines)) := by
  rw [said, lines_body, Event.texts]
  induction e.lines with
  | nil => exact .nil
  | cons line ls ih =>
      rw [List.map_cons, List.filterMap_cons, List.filterMap_cons]
      have hline := line.1.reads
      generalize line.1.text? = text?, lineData? line.1.decoded = said? at hline
      cases hline with
      | none => exact ih
      | some hread => exact .cons hread ih

theorem Reads.spaced {text said : List Char} (h : Reads text said) {ls : List (List Char)}
    (hls : ∀ l ∈ ls, Json.IsLexeme l) (hspaced : Json.Spaced ls text) : Json.Spaced ls said := by
  have hfilter := hspaced.filter_ne_return hls
  obtain rfl | hspace := h
  · exact hfilter
  · rw [← hspace] at hfilter
    exact hfilter.of_cons_space hls

theorem Reads.subset {text said : List Char} (h : Reads text said) : said ⊆ text := by
  intro c hc
  refine List.mem_of_mem_filter (p := (· ≠ '\r')) ?_
  obtain rfl | hspace := h
  · exact hc
  · rw [← hspace]
    exact List.mem_cons_of_mem _ hc

theorem spaced_of_reads {parts : List (List (List Char))} {texts saids : List (List Char)}
    (hparts : ∀ part ∈ parts, ∀ l ∈ part, Json.IsLexeme l)
    (h : List.Forall₂ Json.Spaced parts texts) (hreads : List.Forall₂ Reads texts saids) :
    List.Forall₂ Json.Spaced parts saids := by
  induction h generalizing saids with
  | nil =>
      cases hreads
      exact .nil
  | cons hline _ ih =>
      obtain ⟨hpart, hparts⟩ := List.forall_mem_cons.mp hparts
      obtain _ | ⟨hread, hreads⟩ := hreads
      exact .cons (hread.spaced hpart hline) (ih hparts hreads)

/-- An event that holds a value says a text of the value, with white space where it may stand. -/
theorem payload?_of_holds {e : Event} {v : Json} (h : e.Holds v) :
    ∃ payload, payload? (body e.lines) = some payload ∧ Json.Spaced (Json.lexemes v) payload := by
  have hlexemes := Json.isLexeme_of_mem_lexemes v
  obtain ⟨text, hspaced, htexts⟩ := h
  obtain ⟨parts, hparts, hlines⟩ := hspaced.exists_splitOn hlexemes
  rw [← htexts] at hlines
  have hsaid : List.Forall₂ Json.Spaced parts (said (body e.lines)) := by
    refine spaced_of_reads (fun part hpart l hl => hlexemes l ?_) hlines e.reads
    exact hparts ▸ List.mem_flatten_of_mem hpart hl
  have hpayload := (hparts ▸ Json.spaced_intercalate hsaid).trimChars hlexemes
  refine ⟨_, ?_, hpayload⟩
  rw [payload?_eq, Option.filter_some_eq_some]
  exact decide_eq_true (hpayload.ne_nil hlexemes (Json.lexemes_ne_nil v))

theorem isBlank_of_mem_intercalate {texts : List (List Char)}
    (h : ∀ text ∈ texts, ∀ c ∈ text, Text.isBlank c = true) :
    ∀ c ∈ ['\n'].intercalate texts, Text.isBlank c = true := by
  induction texts with
  | nil => exact List.forall_mem_nil _
  | cons text texts ih =>
      obtain ⟨htext, htexts⟩ := List.forall_mem_cons.mp h
      by_cases hlast : texts = []
      · subst hlast
        simpa using htext
      · rw [List.intercalate_cons_of_ne_nil hlast, List.forall_mem_append, List.forall_mem_append]
        exact ⟨⟨htext, List.forall_mem_singleton.mpr (by decide)⟩, ih htexts⟩

theorem payload?_of_isKeepAlive {e : Event} (h : e.IsKeepAlive) :
    payload? (body e.lines) = none := by
  have hblank (texts saids : List (List Char)) (hreads : List.Forall₂ Reads texts saids)
      (htexts : ∀ text ∈ texts, ∀ c ∈ text, Text.isBlank c = true) :
      ∀ said ∈ saids, ∀ c ∈ said, Text.isBlank c = true := by
    induction hreads with
    | nil => exact List.forall_mem_nil _
    | cons hread _ ih =>
        obtain ⟨htext, htexts⟩ := List.forall_mem_cons.mp htexts
        exact List.forall_mem_cons.mpr ⟨fun c hc => htext c (hread.subset hc), ih htexts⟩
  rw [payload?_eq, Text.trimChars_of_isBlank (isBlank_of_mem_intercalate (hblank _ _ e.reads h))]
  rfl

theorem payload?_of_isDone {e : Event} (h : e.IsDone) :
    payload? (body e.lines) = some doneSignal.toList := by
  have hreads := e.reads
  rw [h] at hreads
  obtain ⟨signal, saids, hread, hnil, hsaid⟩ := List.forall₂_cons_left_iff.mp hreads
  cases hnil
  have hsignal : signal = doneSignal.toList := by
    obtain hread | hread := hread
    · exact hread
    · have hspace : ' ' = '[' := (List.cons.inj hread).1
      exact absurd hspace (by decide)
  rw [payload?_eq, hsaid, hsignal]
  rfl

/-! ### What a reader makes of a stream -/

/-- The payloads of the complete events at the front of some bytes. -/
def payloads (bytes : List UInt8) : List (List Char) :=
  (cut bytes).1.filterMap payload?

theorem payloads_of_whole {bytes : List UInt8} (h : ¬ separator <:+: bytes) :
    payloads bytes = [] := by
  rw [payloads, isCut_iff.mp (isCut_of_whole h)]
  rfl

theorem payloads_separator {frame : List UInt8} (h : ¬ separator <:+: frame ++ [newline])
    (bytes : List UInt8) : payloads (frame ++ (separator ++ bytes)) =
      (payload? frame).toList ++ payloads bytes := by
  rw [payloads, isCut_iff.mp ((isCut_cut bytes).cons h), payloads]
  cases hpayload : payload? frame <;> simp [hpayload]

theorem said_newline (frame : List UInt8) : said (newline :: frame) = said frame := by
  have hdecoded : Utf8.decodeFrom .start (newline :: frame) =
      '\n' :: Utf8.decodeFrom .start frame := rfl
  rw [said, hdecoded, lines, if_pos rfl]
  rfl

/-- An empty line in front of an event does not matter. -/
theorem payloads_newline (bytes : List UInt8) : payloads (newline :: bytes) = payloads bytes := by
  induction bytes with
  | nil =>
      rw [payloads_of_whole (not_separator_infix_singleton _)]
      exact (payloads_of_whole (by simp [separator])).symm
  | cons b bytes ih =>
      by_cases hb : b = newline
      · -- The two newlines end an event that says nothing.
        subst hb
        have hempty : ¬ separator <:+: ([] : List UInt8) ++ [newline] :=
          not_separator_infix_singleton _
        rw [ih]
        exact payloads_separator hempty bytes
      · -- The newline becomes part of the first event, if there is one.
        have hwhole {later : List UInt8} (h : ¬ separator <:+: b :: later) :
            ¬ separator <:+: newline :: b :: later := by
          simpa [separator_infix_cons_cons_iff, hb] using h
        cases hcut : cutFirst (b :: bytes) with
        | none =>
            have hnone := cutFirst_eq_none_iff.mp hcut
            rw [payloads_of_whole hnone, payloads_of_whole (hwhole hnone)]
        | some cut =>
            obtain ⟨frame, rest⟩ := cut
            obtain ⟨hbytes, hframe⟩ := eq_append_of_cutFirst hcut
            obtain ⟨frame, rfl⟩ : ∃ later, frame = b :: later := by
              cases frame with
              | nil => exact absurd (List.cons.inj hbytes).1 hb
              | cons c frame => exact ⟨frame, by rw [(List.cons.inj hbytes).1]⟩
            have hfirst : ¬ separator <:+: (newline :: b :: frame) ++ [newline] := hwhole hframe
            rw [hbytes, payloads_separator hframe, ← payload?_congr (said_newline (b :: frame))]
            exact payloads_separator hfirst rest

theorem separator_not_infix_append {line later : List UInt8} (hne : line ≠ [])
    (hline : newline ∉ line) (hlater : ¬ separator <:+: later)
    (hhead : later.head? ≠ some newline) : ¬ separator <:+: line ++ newline :: later := by
  induction line with
  | nil => exact absurd rfl hne
  | cons a line ih =>
      simp only [List.mem_cons, not_or] at hline
      have ha : a ≠ newline := Ne.symm hline.1
      cases line with
      | nil =>
          rw [List.singleton_append, separator_infix_cons_cons_iff]
          cases later with
          | nil => simp [ha, not_separator_infix_singleton]
          | cons b later =>
              have hb : b ≠ newline := by simpa using hhead
              simp [separator_infix_cons_cons_iff, ha, hb, hlater]
      | cons b line =>
          simp only [List.cons_append, separator_infix_cons_cons_iff, ha, false_and, false_or]
            at ih ⊢
          exact ih (List.cons_ne_nil _ _) hline.2

/-- No line of an event is empty. -/
theorem separator_not_infix_body (ls : List (Line × LineEnd)) :
    ¬ separator <:+: body ls ∧ (body ls).head? ≠ some newline := by
  induction ls with
  | nil => simp [body, separator]
  | cons line ls ih =>
      have hne := line.1.withoutReturns_ne_nil
      have hnewline := line.1.newline_not_mem
      rw [body_cons]
      refine ⟨separator_not_infix_append hne hnewline ih.1 ih.2, ?_⟩
      generalize withoutReturns line.1.bytes = bytes at hne hnewline
      cases bytes with
      | nil => exact absurd rfl hne
      | cons b bytes =>
          simp only [List.mem_cons, not_or] at hnewline
          simpa using Ne.symm hnewline.1

theorem exists_body_eq {ls : List (Line × LineEnd)} (hne : ls ≠ []) :
    ∃ frame, body ls = frame ++ [newline] := by
  induction ls with
  | nil => exact absurd rfl hne
  | cons line ls ih =>
      rw [body_cons]
      by_cases hls : ls = []
      · subst hls
        exact ⟨withoutReturns line.1.bytes, rfl⟩
      · obtain ⟨frame, hframe⟩ := ih hls
        exact ⟨withoutReturns line.1.bytes ++ newline :: frame, by simp [hframe]⟩

/-- The newline that ends the last line of an event ends the event, too. -/
theorem said_append_newline (frame : List UInt8) : said (frame ++ [newline]) = said frame := by
  have hlines (cs : List Char) :
      lines (cs ++ ['\n']) = lines cs ∨ lines (cs ++ ['\n']) = lines cs ++ [[]] := by
    induction cs with
    | nil => exact .inr rfl
    | cons c cs ih =>
        rw [List.cons_append, lines, lines]
        split
        · exact ih.imp (congrArg _) (congrArg _)
        · obtain ih | ih := ih
          · exact .inl (by rw [ih])
          · cases hcs : lines cs with
            | nil => exact .inl (by rw [ih, hcs]; rfl)
            | cons l ls => exact .inr (by rw [ih, hcs]; rfl)
  have hdecoded : Utf8.decodeFrom .start (frame ++ [newline]) =
      Utf8.decodeFrom .start frame ++ ['\n'] :=
    Utf8.decodeFrom_append_newline (s := .start) trivial frame []
  rw [said, hdecoded, said]
  obtain hlines | hlines := hlines (Utf8.decodeFrom .start frame)
  · rw [hlines]
  · rw [hlines, List.filterMap_append]
    exact List.append_nil _

/-- **An event is read for itself.** -/
theorem payloads_append (e : Event) (bytes : List UInt8) :
    payloads (withoutReturns e.bytes ++ bytes) =
      (payload? (body e.lines)).toList ++ payloads bytes := by
  rw [Event.withoutReturns_bytes, List.append_assoc, List.singleton_append]
  by_cases hlines : e.lines = []
  · rw [hlines]
    exact payloads_newline bytes
  · obtain ⟨frame, hframe⟩ := exists_body_eq hlines
    have hpayload := payload?_congr (said_append_newline frame)
    have hwhole := (separator_not_infix_body e.lines).1
    rw [hframe] at hwhole
    rw [hframe, hpayload, ← payloads_separator hwhole, List.append_assoc]
    rfl

/-- The signal that ends a stream is no value. -/
theorem read?_doneSignal : Json.read? doneSignal = none := by
  decide_cbv

/-- Events that carry some values say these values, and none of them is taken for the signal. -/
theorem Carry.payloads {es : List Event} {vs : List Json} (h : Carry es vs)
    (hread : ∀ v ∈ vs, Json.read? v.write = some v) (bytes : List UInt8) :
    ∃ ps : List (List Char), payloads (withoutReturns (es.flatMap Event.bytes) ++ bytes) =
      ps ++ Events.payloads bytes ∧ ps.map itemOf = vs.map .ok ∧ doneSignal.toList ∉ ps := by
  induction h with
  | nil => exact ⟨[], rfl, rfl, List.not_mem_nil⟩
  | @value e v es vs h _ ih =>
      obtain ⟨hv, hvs⟩ := List.forall_mem_cons.mp hread
      obtain ⟨ps, hps, hitems, hdone⟩ := ih hvs
      obtain ⟨p, hp, hspaced⟩ := payload?_of_holds h
      have hreadp : Json.read? (String.ofList p) = some v :=
        (Json.read?_eq_of_spaced hspaced).trans hv
      refine ⟨p :: ps, ?_, ?_, ?_⟩
      · rw [List.flatMap_cons, withoutReturns_append, List.append_assoc, payloads_append, hp, hps]
        rfl
      · rw [List.map_cons, hitems, itemOf, hreadp]
        rfl
      · simp only [List.mem_cons, not_or]
        refine ⟨?_, hdone⟩
        rintro rfl
        rw [String.ofList_toList, read?_doneSignal] at hreadp
        cases hreadp
  | @keepAlive e es vs h _ ih =>
      obtain ⟨ps, hps, hitems, hdone⟩ := ih hread
      refine ⟨ps, ?_, hitems, hdone⟩
      rw [List.flatMap_cons, withoutReturns_append, List.append_assoc, payloads_append,
        payload?_of_isKeepAlive h, hps]
      rfl

/-- Nothing counts after the signal. -/
theorem batch_of_done {done : String} {frames : List (List UInt8)} {ps later : List (List Char)}
    (h : frames.filterMap payload? = ps ++ done.toList :: later) (hps : done.toList ∉ ps)
    (rest : List UInt8) (failure? : Option Error) :
    batch done frames rest failure? = ps.map itemOf := by
  have hall : ∀ p ∈ ps, decide (p ≠ done.toList) = true := fun p hp =>
    decide_eq_true (ne_of_mem_of_not_mem hp hps)
  simp only [batch, h, itemsBefore]
  rw [List.takeWhile_append_of_pos hall, List.takeWhile_cons_of_neg (by simp), List.append_nil,
    if_pos (List.mem_append_right _ List.mem_cons_self), List.append_nil]

/-- **Events are read as they were written.**  The signal ends the stream, whatever comes later. -/
theorem decode_stream {vs : List Json} {bytes : List UInt8}
    (hread : ∀ v ∈ vs, Json.read? v.write = some v) (h : Writes vs bytes)
    {chunks : List (List UInt8)} (hchunks : chunks.flatten = bytes) (later : List Chunk) :
    decode doneSignal (chunks.map .ok ++ later) = vs.map .ok := by
  obtain ⟨events, last, rest, hcarry, hlast, rfl⟩ := h
  have hbytes : withoutReturns (delivered (chunks.map .ok ++ later)) =
      withoutReturns (events.flatMap Event.bytes) ++
        (withoutReturns last.bytes ++ withoutReturns (rest ++ delivered later)) := by
    rw [delivered_append, hchunks, ← withoutReturns_append, ← withoutReturns_append]
    simp only [List.append_assoc]
  obtain ⟨ps, hps, hitems, hdone⟩ := hcarry.payloads hread
    (withoutReturns last.bytes ++ withoutReturns (rest ++ delivered later))
  rw [← hbytes, payloads_append, payload?_of_isDone hlast] at hps
  have hkept : cut [] = ([], []) := rfl
  rw [decode, decodeFrom_eq doneSignal _ hkept, List.nil_append, ← hitems]
  exact batch_of_done hps hdone _ _

end Events

/-! ### Lines -/

namespace JsonLines

open Events (newline)

/-- A line of a stream. -/
inductive Line where
  /-- The compact text of a value. -/
  | value (v : Json)
  | blank (text : List Char) (whole : '\n' ∉ text) (isBlank : ∀ c ∈ text, Text.isBlank c = true)

def Line.text : Line → List Char
  | .value v => v.write.toList
  | .blank text _ _ => text

def Line.value? : Line → Option Json
  | .value v => some v
  | .blank .. => none

/-- The bytes of some lines and of a last one that no newline ends. -/
def bytes (lines : List (Line × LineEnd)) (last : Line) : List UInt8 :=
  (lines.flatMap fun line => Utf8.encodeChars line.1.text ++ line.2.bytes) ++
    Utf8.encodeChars last.text

/-- The values that they hold. -/
def values (lines : List (Line × LineEnd)) (last : Line) : List Json :=
  lines.filterMap (fun line => line.1.value?) ++ last.value?.toList

/-- A stream of some values: lines that hold them, and blank ones.  The last line may be empty. -/
def Writes (vs : List Json) (bytes : List UInt8) : Prop :=
  ∃ lines last, values lines last = vs ∧ bytes = JsonLines.bytes lines last

theorem Line.newline_not_mem (l : Line) : '\n' ∉ l.text := by
  cases l with
  | value v =>
      rw [Line.text, Json.write, String.toList_ofList]
      exact Json.newline_not_mem_writeChars v
  | blank text whole _ => exact whole

theorem items_singleton (line : List UInt8) :
    items [line] = if textOf line = [] then [] else [itemOf (textOf line)] := by
  by_cases hblank : textOf line = []
  · simp [items, hblank]
  · simp [items, hblank]

/-- A line comes to its value, if it holds one. -/
theorem items_line {l : Line} (hread : ∀ v ∈ l.value?, Json.read? v.write = some v)
    (ending : LineEnd) :
    items [Utf8.encodeChars (l.text ++ ending.returns)] = l.value?.toList.map .ok := by
  have hreturns : Json.Spaced [] ending.returns ∧ ∀ c ∈ ending.returns, Text.isBlank c = true := by
    cases ending with
    | newline => exact ⟨.nil, List.forall_mem_nil _⟩
    | returnNewline => exact ⟨.space rfl .nil, List.forall_mem_singleton.mpr (by decide)⟩
  rw [items_singleton, textOf, Utf8.decodeFrom_start_encodeChars]
  cases l with
  | value v =>
      have hlexemes := Json.isLexeme_of_mem_lexemes v
      have hspaced : Json.Spaced (Json.lexemes v)
          (Text.trimChars (v.write.toList ++ ending.returns)) := by
        rw [Json.write, String.toList_ofList, ← Json.flatten_lexemes]
        have happend := (Json.spaced_flatten (Json.lexemes v)).append hreturns.1
        rw [List.append_nil] at happend
        exact happend.trimChars hlexemes
      rw [Line.text, if_neg (hspaced.ne_nil hlexemes (Json.lexemes_ne_nil v)), itemOf,
        Json.read?_eq_of_spaced hspaced, hread v rfl]
      rfl
  | blank text whole isBlank =>
      have hblank := Text.trimChars_of_isBlank (List.forall_mem_append.mpr ⟨isBlank, hreturns.2⟩)
      rw [Line.text, if_pos hblank]
      rfl

theorem bytes_cons (line : Line × LineEnd) (lines : List (Line × LineEnd)) (last : Line) :
    bytes (line :: lines) last =
      Utf8.encodeChars (line.1.text ++ line.2.returns) ++ newline :: bytes lines last := by
  simp [bytes, LineEnd.bytes, Utf8.encodeChars_append]

theorem values_cons (line : Line × LineEnd) (lines : List (Line × LineEnd)) (last : Line) :
    values (line :: lines) last = line.1.value?.toList ++ values lines last := by
  simp [values, List.filterMap_eq_flatMap_toList]

/-- Lines come to the values that they hold. -/
theorem items_bytes {lines : List (Line × LineEnd)} {last : Line}
    (hread : ∀ v ∈ values lines last, Json.read? v.write = some v) :
    items ((bytes lines last).splitOn newline) = (values lines last).map .ok := by
  induction lines with
  | nil =>
      have hnewline : newline ∉ Utf8.encodeChars last.text :=
        Utf8.newline_not_mem_encodeChars last.newline_not_mem
      have hlast := items_line (l := last) (fun v hv => hread v (Option.mem_toList.mpr hv)) .newline
      rw [LineEnd.returns, List.append_nil] at hlast
      rw [bytes, List.flatMap_nil, List.nil_append, List.splitOn_eq_singleton hnewline, hlast]
      rfl
  | cons line lines ih =>
      rw [values_cons, List.forall_mem_append] at hread
      have hnewline : newline ∉ Utf8.encodeChars (line.1.text ++ line.2.returns) := by
        refine Utf8.newline_not_mem_encodeChars ?_
        rw [List.mem_append, not_or]
        exact ⟨line.1.newline_not_mem, by cases line.2 <;> decide⟩
      have hline := items_line (l := line.1)
        (fun v hv => hread.1 v (Option.mem_toList.mpr hv)) line.2
      calc items ((bytes (line :: lines) last).splitOn newline)
          = items ([Utf8.encodeChars (line.1.text ++ line.2.returns)] ++
              (bytes lines last).splitOn newline) := by
            rw [bytes_cons, splitOn_append_cons hnewline, List.singleton_append]
        _ = line.1.value?.toList.map .ok ++ (values lines last).map .ok := by
            rw [items_append, hline, ih hread.2]
        _ = (values (line :: lines) last).map .ok := by
            rw [values_cons, List.map_append]

/-- **Lines are read as they were written.** -/
theorem decode_stream {vs : List Json} {bytes : List UInt8}
    (hread : ∀ v ∈ vs, Json.read? v.write = some v) (h : Writes vs bytes)
    {chunks : List (List UInt8)} (hchunks : chunks.flatten = bytes) :
    decode (chunks.map .ok) = vs.map .ok := by
  obtain ⟨lines, last, rfl, rfl⟩ := h
  have hkept : cut [] = ([], []) := rfl
  rw [decode, decodeFrom_eq _ hkept, List.nil_append, failure?_map_ok, delivered_map_ok, hchunks]
  exact items_bytes hread

end JsonLines

/-- Some bytes are a stream of some values in a format. -/
def StreamFormat.Writes : StreamFormat → List Json → List UInt8 → Prop
  | .events => Events.Writes
  | .jsonLines => JsonLines.Writes

/-- **What is written is read.**  A stream that carries some values, each of which the reader reads
from its compact text, yields these values and nothing else, wherever its chunks end. -/
theorem StreamFormat.decode_of_writes (format : StreamFormat) {vs : List Json}
    (hread : ∀ v ∈ vs, Json.read? v.write = some v) {bytes : List UInt8}
    (h : format.Writes vs bytes) {chunks : List (List UInt8)} (hchunks : chunks.flatten = bytes) :
    format.decode (chunks.map .ok) = vs.map .ok := by
  cases format with
  | events =>
      have hdecode := Events.decode_stream hread h hchunks []
      rwa [List.append_nil] at hdecode
  | jsonLines => exact JsonLines.decode_stream hread h hchunks

/-- A value inside a value, with a text that takes escapes and two bytes for one character. -/
def nested : Json :=
  .object [("a", .array [.text "é\n", .number (.integer 7)])]

/-- Its text over four lines. -/
def nestedText : String := "\x7b\n  \"a\": [\n\t\"é\\n\",7\n]\x7d"

theorem spaced_nestedText : Json.Spaced (Json.lexemes nested) nestedText.toList :=
  .lexeme _ (.space rfl (.space rfl (.space rfl (.lexeme _ (.lexeme _ (.space rfl (.lexeme _
    (.space rfl (.space rfl (.lexeme _ (.lexeme _ (.lexeme _ (.space rfl (.lexeme _
      (.lexeme _ .nil)))))))))))))))

namespace Events

/-- An event that holds the value, with a damaged comment inside. -/
def nestedEvent : Event where
  lines := [
    (.other .event (Utf8.encode " message") (by decide_cbv), .returnNewline),
    (.data true "\x7b".toList (by decide), .newline),
    (.data false "  \"a\": [".toList (by decide), .returnNewline),
    (.other .comment [0xC3] (by decide), .newline),
    (.data true "\t\"é\\n\",7".toList (by decide), .newline),
    (.data false "]\x7d".toList (by decide), .newline)]
  ending := .returnNewline

def pingEvent : Event where
  lines := [(.other .comment (Utf8.encode " ping") (by decide_cbv), .returnNewline)]
  ending := .returnNewline

/-- An event with one line of data. -/
def lineEvent (text : String) (whole : '\n' ∉ text.toList) : Event where
  lines := [(.data false text.toList whole, .newline)]
  ending := .newline

def nestedEvents : List Event :=
  [pingEvent, nestedEvent, ⟨[], .newline⟩, lineEvent "\"[DONE]\"" (by decide)]

/-- The value, and a text that reads like the signal; then the signal, and damaged bytes. -/
def nestedBytes : List UInt8 :=
  nestedEvents.flatMap Event.bytes ++
    ((lineEvent "[DONE]" (by decide)).bytes ++ [0xFF, newline, newline, 0x7B])

theorem writes_nestedBytes : Writes [nested, .text "[DONE]"] nestedBytes := by
  have hping : pingEvent.IsKeepAlive := List.forall_mem_nil _
  have hnested : nestedEvent.Holds nested := ⟨nestedText.toList, spaced_nestedText, by decide_cbv⟩
  have hempty : Event.IsKeepAlive ⟨[], .newline⟩ := List.forall_mem_nil _
  have htext : (lineEvent "\"[DONE]\"" (by decide)).Holds (.text "[DONE]") :=
    Event.holds_of_compact (by decide_cbv)
  have hcarry : Carry nestedEvents [nested, .text "[DONE]"] :=
    .keepAlive hping (.value hnested (.keepAlive hempty (.value htext .nil)))
  have hdone : (lineEvent "[DONE]" (by decide)).IsDone := rfl
  exact ⟨_, _, _, hcarry, hdone, rfl⟩

end Events

namespace JsonLines

/-- The same values, with a blank line between them. -/
def nestedLines : List (Line × LineEnd) :=
  [(.value nested, .returnNewline),
    (.blank [' ', '\t'] (by decide) (List.all_eq_true.mp (by decide)), .newline)]

/-- No newline ends the last line. -/
def nestedBytes : List UInt8 :=
  bytes nestedLines (.value (.text "[DONE]"))

theorem writes_nestedBytes : Writes [nested, .text "[DONE]"] nestedBytes :=
  ⟨nestedLines, .value (.text "[DONE]"), rfl, rfl⟩

end JsonLines

/-- The first chunk ends inside a character. -/
theorem StreamFormat.decode_of_writes_nested :
    StreamFormat.events.decode
        ([Events.nestedBytes.take 61, [], Events.nestedBytes.drop 61].map .ok) =
      [.ok nested, .ok (.text "[DONE]")] ∧
    StreamFormat.jsonLines.decode
        ([JsonLines.nestedBytes.take 8, JsonLines.nestedBytes.drop 8].map .ok) =
      [.ok nested, .ok (.text "[DONE]")] := by
  have hnested : Json.read? nested.write = some nested := by decide_cbv
  have htext : Json.read? (Json.write (.text "[DONE]")) = some (.text "[DONE]") := by decide_cbv
  have hread : ∀ v ∈ [nested, .text "[DONE]"], Json.read? v.write = some v :=
    List.forall_mem_cons.mpr ⟨hnested, List.forall_mem_singleton.mpr htext⟩
  refine ⟨?_, ?_⟩
  · exact decode_of_writes .events hread Events.writes_nestedBytes (by simp)
  · exact decode_of_writes .jsonLines hread JsonLines.writes_nestedBytes (by simp)

end ChatRelay
