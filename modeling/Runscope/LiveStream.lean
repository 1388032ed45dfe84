import Runscope.Models
import Runscope.Streams.Framing
import Runscope.Streams.Recent

/-!
The live stream of a run: the frames `stream_run` writes (`api/runs.py`) and
the loop of `useRunStream` that reads them (`useRunStream.ts`).

Texts are lists of characters; ids are kept as their text. Besides what the
hook keeps, its state records what `parseSseBlock` has returned and which
events have invalidated the queries.
-/

namespace Runscope

open Streams

abbrev Text := List Char

/-- Neither a carriage return nor a line feed. -/
def SingleLine (text : Text) : Prop := '\r' ∉ text ∧ '\n' ∉ text

structure LiveEvent where
  eventId : Text
  eventType : Text
  runId : Uuid
  occurredAt : Time
  payload : Record
  eventId_line : SingleLine eventId
  eventType_line : SingleLine eventType

/-- What the client reads of an event. -/
structure StreamEvent where
  eventId : Text
  eventType : Text
  deriving DecidableEq

/-- The serializer of the service and the parser of the browser. -/
structure Json where
  /-- `model_dump_json` -/
  dump : LiveEvent → Text
  /-- `JSON.parse`, `none` where it throws or returns a falsy value. -/
  parse : Text → Option StreamEvent

/-- What the two have in common. -/
structure Json.Agrees (json : Json) : Prop where
  dump_line : ∀ event, SingleLine (json.dump event)
  parse_dump : ∀ event, json.parse (json.dump event) = some ⟨event.eventId, event.eventType⟩
  parse_empty : json.parse [] = none

/-- `TextDecoder` with `stream: true`. -/
structure TextDecoder where
  State : Type
  init : State
  decode : State → ByteArray → State × Text

/-- The texts decoded from the chunks, one after the other. -/
def TextDecoder.texts (decoder : TextDecoder) : decoder.State → List ByteArray → List Text
  | _, [] => []
  | state, chunk :: chunks =>
    let (state, text) := decoder.decode state chunk
    text :: decoder.texts state chunks

theorem TextDecoder.texts_cons (decoder : TextDecoder) (state : decoder.State) (chunk : ByteArray)
    (chunks : List ByteArray) : decoder.texts state (chunk :: chunks) =
      (decoder.decode state chunk).2 :: decoder.texts (decoder.decode state chunk).1 chunks := rfl

/-- The chunks, one after the other. -/
def joined (chunks : List ByteArray) : ByteArray := chunks.foldr (· ++ ·) .empty

/-- What the decoder leaves out at the beginning of a stream. -/
def byteOrderMark : Char := Char.ofNat 0xFEFF

/-- The chunks of an encoded text are decoded to the text. -/
def TextDecoder.Streams (decoder : TextDecoder) : Prop :=
  ∀ chunks text, joined chunks = text.utf8Encode → text.head? ≠ some byteOrderMark →
    (decoder.texts decoder.init chunks).flatten = text

/-! ### The service -/

def newline : Text := ['\n']

/-- `"id: "` -/
def idField : Text := ['i', 'd', ':', ' ']

/-- `"event: "` -/
def eventField : Text := ['e', 'v', 'e', 'n', 't', ':', ' ']

/-- `"data: "` -/
def dataField : Text := ['d', 'a', 't', 'a', ':', ' ']

/-- `"retry: 2000"` -/
def retryLine : Text := ['r', 'e', 't', 'r', 'y', ':', ' ', '2', '0', '0', '0']

/-- One frame of `stream_run.events`. -/
def frame (json : Json) (event : LiveEvent) : Text :=
  idField ++ event.eventId ++ newline ++ (eventField ++ event.eventType) ++ newline ++
    (dataField ++ json.dump event) ++ newline ++ newline

/-- All that one connection is sent. -/
def streamRun (json : Json) (events : List LiveEvent) : Text :=
  retryLine ++ newline ++ newline ++ events.flatMap (frame json)

/-! ### The client -/

/-- `text.split("\n")` -/
def splitLines : Text → List Text
  | [] => [[]]
  | c :: text =>
    if c = '\n' then [] :: splitLines text
    else
      match splitLines text with
      | [] => [[c]]
      | line :: lines => (c :: line) :: lines

/-- `text.replaceAll("\r\n", "\n")` -/
def replaceCrLf : Text → Text
  | '\r' :: '\n' :: text => '\n' :: replaceCrLf text
  | c :: text => c :: replaceCrLf text
  | [] => []

def parseSseBlock (json : Json) (block : Text) : Option StreamEvent :=
  let data := ((splitLines block).find? fun line => dataField.isPrefixOf line).map (·.drop 6)
  match data with
  | none => none
  | some [] => none
  | some data => json.parse data

structure RunStream where
  seen : List Text
  extracted : List StreamEvent
  invalidations : List StreamEvent

def RunStream.init : RunStream := ⟨[], [], []⟩

/-- `"stream.heartbeat"` -/
def heartbeat : Text := "stream.heartbeat".toList

/-- The body of the inner loop. -/
def handleBlock (json : Json) (stream : RunStream) (block : Text) : RunStream :=
  match parseSseBlock json block with
  | none => stream
  | some parsed =>
    let stream := { stream with extracted := stream.extracted ++ [parsed] }
    if parsed.eventType = heartbeat then stream
    else if parsed.eventId ∈ stream.seen then stream
    else
      { stream with
        seen := push 500 stream.seen parsed.eventId
        invalidations := stream.invalidations ++ [parsed] }

def separator : Text := ['\n', '\n']

theorem separator_ne_nil : separator ≠ [] := by decide

/-- The chunks of one connection, from its start to its end. -/
def readConnection (json : Json) (decoder : TextDecoder) (stream : RunStream)
    (chunks : List ByteArray) : RunStream :=
  (read separator separator_ne_nil (handleBlock json) (stream, [])
    ((decoder.texts decoder.init chunks).map replaceCrLf)).1

/-- `connect`: one connection after the other. -/
def connect (json : Json) (decoder : TextDecoder) (stream : RunStream)
    (connections : List (List ByteArray)) : RunStream :=
  connections.foldl (readConnection json decoder) stream

/-! ### One frame -/

/-- A frame without the empty line that ends it. -/
def frameBlock (json : Json) (event : LiveEvent) : Text :=
  idField ++ event.eventId ++ '\n' :: (eventField ++ event.eventType ++ '\n' ::
    (dataField ++ json.dump event))

theorem frame_eq (json : Json) (event : LiveEvent) :
    frame json event = frameBlock json event ++ separator := by
  simp only [frame, frameBlock, newline, separator, List.append_assoc, List.cons_append,
    List.nil_append]

def LiveEvent.received (event : LiveEvent) : StreamEvent := ⟨event.eventId, event.eventType⟩

theorem splitLines_line {line : Text} (h : '\n' ∉ line) : splitLines line = [line] := by
  induction line with
  | nil => rfl
  | cons c line ih =>
      obtain ⟨hc, hline⟩ := not_or.mp (mt List.mem_cons.mpr h)
      rw [splitLines, if_neg (Ne.symm hc), ih hline]

theorem splitLines_append {line : Text} (h : '\n' ∉ line) (rest : Text) :
    splitLines (line ++ '\n' :: rest) = line :: splitLines rest := by
  induction line with
  | nil => simp [splitLines]
  | cons c line ih =>
      obtain ⟨hc, hline⟩ := not_or.mp (mt List.mem_cons.mpr h)
      rw [List.cons_append, splitLines, if_neg (Ne.symm hc), ih hline]

section Frames

variable {json : Json} {event : LiveEvent}

theorem frame_lines (hjson : json.Agrees) (event : LiveEvent) :
    '\n' ∉ idField ++ event.eventId ∧ '\n' ∉ eventField ++ event.eventType ∧
      '\n' ∉ dataField ++ json.dump event := by
  simp [idField, eventField, dataField, event.eventId_line.2, event.eventType_line.2,
    (hjson.dump_line event).2]

theorem sealed_frameBlock (hjson : json.Agrees) (event : LiveEvent) :
    Sealed separator (frameBlock json event) := by
  obtain ⟨hid, htype, hdata⟩ := frame_lines hjson event
  have hlast : Sealed separator (dataField ++ json.dump event) := sealed_line hdata
  exact Sealed.cons (Sealed.cons hlast htype (by decide)) hid (by decide)

theorem parseSseBlock_frameBlock (hjson : json.Agrees) (event : LiveEvent) :
    parseSseBlock json (frameBlock json event) = some event.received := by
  obtain ⟨hid, htype, hdata⟩ := frame_lines hjson event
  have hlines : splitLines (frameBlock json event) = [idField ++ event.eventId,
      eventField ++ event.eventType, dataField ++ json.dump event] := by
    rw [frameBlock, splitLines_append hid, splitLines_append htype, splitLines_line hdata]
  have hparse := hjson.parse_dump event
  have hdump : json.dump event ≠ [] := by
    intro hempty
    rw [hempty, hjson.parse_empty] at hparse
    cases hparse
  have hfind : [idField ++ event.eventId, eventField ++ event.eventType,
      dataField ++ json.dump event].find? (fun line => dataField.isPrefixOf line) =
      some (dataField ++ json.dump event) := by
    simp [idField, eventField, dataField]
  have hdrop : (dataField ++ json.dump event).drop 6 = json.dump event := rfl
  rw [parseSseBlock, hlines, hfind, Option.map_some, hdrop]
  cases hdata : json.dump event with
  | nil => exact absurd hdata hdump
  | cons c data =>
      rw [hdata] at hparse
      exact hparse

/-- The frame that sets the retry time says nothing. -/
theorem parseSseBlock_retry (json : Json) : parseSseBlock json retryLine = none := rfl

theorem streamRun_eq (json : Json) (events : List LiveEvent) :
    streamRun json events =
      (retryLine :: events.map (frameBlock json)).flatMap (· ++ separator) := by
  rw [streamRun, List.flatMap_cons, List.flatMap_map, ← funext (frame_eq json)]
  rfl

theorem sealed_blocks (hjson : json.Agrees) (events : List LiveEvent) :
    ∀ block ∈ retryLine :: events.map (frameBlock json), Sealed separator block := by
  intro block hblock
  rcases List.mem_cons.mp hblock with rfl | hblock
  · exact sealed_line (by decide)
  · obtain ⟨event, -, rfl⟩ := List.mem_map.mp hblock
    exact sealed_frameBlock hjson event

end Frames

/-! ### One connection -/

theorem replaceCrLf_eq {text : Text} (h : '\r' ∉ text) : replaceCrLf text = text := by
  fun_induction replaceCrLf text with
  | case1 text ih => simp at h
  | case2 c text hne ih => rw [ih fun hmem => h (List.mem_cons_of_mem _ hmem)]
  | case3 => rfl

theorem streamRun_line {json : Json} (hjson : json.Agrees) (events : List LiveEvent) :
    '\r' ∉ streamRun json events := by
  rw [streamRun, List.mem_append, List.mem_flatMap, not_or]
  refine ⟨by decide, ?_⟩
  rintro ⟨event, -, hmem⟩
  simp [frame, newline, idField, eventField, dataField, event.eventId_line.1, event.eventType_line.1,
    (hjson.dump_line event).1] at hmem

/-- The events that are news to someone who has accepted the given ids, the
newest first. -/
def accepted (history : List Text) : List StreamEvent → List StreamEvent
  | [] => []
  | event :: events =>
    if event.eventType = heartbeat ∨ event.eventId ∈ recent 500 history then
      accepted history events
    else event :: accepted (event.eventId :: history) events

/-- The ids accepted after the events, the newest first. -/
def historyAfter (history : List Text) (events : List StreamEvent) : List Text :=
  ((accepted history events).map StreamEvent.eventId).reverse ++ history

theorem accepted_append (history : List Text) (events later : List StreamEvent) :
    accepted history (events ++ later) =
      accepted history events ++ accepted (historyAfter history events) later := by
  induction events generalizing history with
  | nil => rfl
  | cons event events ih =>
      simp only [List.cons_append, accepted, historyAfter] at ih ⊢
      split
      · exact ih history
      · simp [ih]

/-- The stream has taken in the events and holds what is recent. -/
structure Took (stream stream' : RunStream) (history : List Text) (events : List StreamEvent) :
    Prop where
  seen : stream'.seen = (recent 500 (historyAfter history events)).reverse
  extracted : stream'.extracted = stream.extracted ++ events
  invalidations : stream'.invalidations = stream.invalidations ++ accepted history events

theorem foldl_handleBlock {json : Json} (hjson : json.Agrees) (events : List LiveEvent)
    (stream : RunStream) (history : List Text)
    (hseen : stream.seen = (recent 500 history).reverse) :
    Took stream ((events.map (frameBlock json)).foldl (handleBlock json) stream) history
      (events.map LiveEvent.received) := by
  induction events generalizing stream history with
  | nil => exact ⟨hseen, by simp, by simp [accepted]⟩
  | cons event events ih =>
      simp only [List.map_cons, List.foldl_cons, handleBlock, parseSseBlock_frameBlock hjson]
      have hmem : event.received.eventId ∈ stream.seen ↔
          event.received.eventId ∈ recent 500 history := by
        rw [hseen, List.mem_reverse]
      by_cases hbeat : event.received.eventType = heartbeat
      · have hrest := ih { stream with extracted := stream.extracted ++ [event.received] } history hseen
        rw [if_pos hbeat]
        exact ⟨by simpa [historyAfter, accepted, hbeat] using hrest.seen,
          by simpa using hrest.extracted, by simpa [accepted, hbeat] using hrest.invalidations⟩
      by_cases hold : event.received.eventId ∈ recent 500 history
      · have hrest := ih { stream with extracted := stream.extracted ++ [event.received] } history hseen
        rw [if_neg hbeat, if_pos (hmem.mpr hold)]
        exact ⟨by simpa [historyAfter, accepted, hold] using hrest.seen,
          by simpa using hrest.extracted, by simpa [accepted, hold] using hrest.invalidations⟩
      · have hpush : push 500 stream.seen event.received.eventId =
            (recent 500 (event.received.eventId :: history)).reverse := by
          rw [hseen, push_recent (by decide) hold]
        have hrest := ih
          { seen := push 500 stream.seen event.received.eventId
            extracted := stream.extracted ++ [event.received]
            invalidations := stream.invalidations ++ [event.received] }
          (event.received.eventId :: history) hpush
        rw [if_neg hbeat, if_neg (mt hmem.mp hold)]
        exact ⟨by simpa [historyAfter, accepted, hbeat, hold] using hrest.seen,
          by simpa using hrest.extracted,
          by simpa [accepted, hbeat, hold] using hrest.invalidations⟩

theorem readConnection_took {json : Json} (hjson : json.Agrees) {decoder : TextDecoder}
    (hdecoder : decoder.Streams) {events : List LiveEvent} {chunks : List ByteArray}
    (hchunks : joined chunks = (streamRun json events).utf8Encode) {stream : RunStream}
    {history : List Text} (hseen : stream.seen = (recent 500 history).reverse) :
    Took stream (readConnection json decoder stream chunks) history
      (events.map LiveEvent.received) := by
  have hmark : (streamRun json events).head? ≠ some byteOrderMark := by
    have hhead : (streamRun json events).head? = some 'r' := rfl
    rw [hhead]
    decide
  have htexts := hdecoder chunks _ hchunks hmark
  have hline : ∀ text ∈ decoder.texts decoder.init chunks, replaceCrLf text = text := by
    intro text htext
    refine replaceCrLf_eq fun hmem => streamRun_line hjson events ?_
    rw [← htexts]
    exact List.mem_flatten.mpr ⟨text, htext, hmem⟩
  rw [readConnection, List.map_congr_left hline, List.map_id', read_eq _ _ rfl, List.nil_append,
    htexts, streamRun_eq, drain_sealed (sealed_blocks hjson events), List.foldl_cons]
  have hretry : handleBlock json stream retryLine = stream := by
    rw [handleBlock, parseSseBlock_retry]
  rw [hretry]
  exact foldl_handleBlock hjson events stream history hseen

/-! ### Any number of connections -/

theorem length_seen_handleBlock (json : Json) (stream : RunStream) (block : Text)
    (h : stream.seen.length ≤ 500) : (handleBlock json stream block).seen.length ≤ 500 := by
  rw [handleBlock]
  split
  · exact h
  · dsimp only
    split
    · exact h
    · split
      · exact h
      · exact length_push_le h _

theorem length_seen_connect (json : Json) (decoder : TextDecoder)
    (connections : List (List ByteArray)) (stream : RunStream)
    (h : stream.seen.length ≤ 500) : (connect json decoder stream connections).seen.length ≤ 500 := by
  induction connections generalizing stream with
  | nil => exact h
  | cons chunks connections ih =>
      exact ih _ (read_preserves (length_seen_handleBlock json) (stream, []) _ h)

theorem connect_took {json : Json} (hjson : json.Agrees) {decoder : TextDecoder}
    (hdecoder : decoder.Streams) (connections : List (List LiveEvent × List ByteArray))
    (hchunks : ∀ c ∈ connections, joined c.2 = (streamRun json c.1).utf8Encode) (stream : RunStream)
    (history : List Text) (hseen : stream.seen = (recent 500 history).reverse) :
    Took stream (connect json decoder stream (connections.map Prod.snd)) history
      ((connections.flatMap Prod.fst).map LiveEvent.received) := by
  induction connections generalizing stream history with
  | nil => exact ⟨hseen, by simp [connect], by simp [connect, accepted]⟩
  | cons c connections ih =>
      have hfirst := readConnection_took hjson hdecoder (hchunks c (by simp)) hseen
      have hrest := ih (fun c hc => hchunks c (by simp [hc])) _ _ hfirst.seen
      simp only [List.map_cons, List.flatMap_cons, List.map_append]
      refine ⟨?_, ?_, ?_⟩
      · refine hrest.seen.trans ?_
        rw [historyAfter, historyAfter, historyAfter, accepted_append]
        simp [historyAfter]
      · exact hrest.extracted.trans (by rw [hfirst.extracted, List.append_assoc])
      · refine hrest.invalidations.trans ?_
        rw [hfirst.invalidations, accepted_append, List.append_assoc]

/-- However the connections are cut into chunks, what is extracted is what was
encoded, the queries are invalidated once for every event that is news, and
the memory stays bounded. -/
theorem stream_round_trip {json : Json} (hjson : json.Agrees) {decoder : TextDecoder}
    (hdecoder : decoder.Streams) (connections : List (List LiveEvent × List ByteArray))
    (hchunks : ∀ c ∈ connections, joined c.2 = (streamRun json c.1).utf8Encode) :
    (connect json decoder .init (connections.map Prod.snd)).extracted =
        (connections.flatMap Prod.fst).map LiveEvent.received ∧
      (connect json decoder .init (connections.map Prod.snd)).invalidations =
        accepted [] ((connections.flatMap Prod.fst).map LiveEvent.received) ∧
      ∀ chunks, (connect json decoder .init chunks).seen.length ≤ 500 := by
  have htook := connect_took hjson hdecoder connections hchunks .init [] rfl
  refine ⟨htook.extracted, htook.invalidations, fun chunks => ?_⟩
  exact length_seen_connect json decoder chunks .init (Nat.zero_le _)

/-! ### A browser to try it on -/

namespace Demo

/-- The characters of a JSON string. -/
def escape : Text → Text
  | [] => []
  | c :: text => if c = '"' ∨ c = '\\' then '\\' :: c :: escape text else c :: escape text

/-- A JSON string up to its closing quote, and what follows. -/
def unescape : Text → Option (Text × Text)
  | [] => none
  | '"' :: rest => some ([], rest)
  | '\\' :: c :: rest => (unescape rest).map fun r => (c :: r.1, r.2)
  | c :: rest => (unescape rest).map fun r => (c :: r.1, r.2)

theorem unescape_escape (text rest : Text) :
    unescape (escape text ++ '"' :: rest) = some (text, rest) := by
  induction text with
  | nil => rfl
  | cons c text ih =>
      rw [escape]
      split
      · simp [unescape, ih]
      · next hc =>
        rw [List.cons_append, unescape, ih]
        · rfl
        · rintro rfl; exact hc (.inl rfl)
        · rintro d r rfl; exact absurd (.inr rfl) hc

def idKey : Text := ['{', '"', 'e', 'v', 'e', 'n', 't', '_', 'i', 'd', '"', ':', '"']

def typeKey : Text := [',', '"', 'e', 'v', 'e', 'n', 't', '_', 't', 'y', 'p', 'e', '"', ':', '"']

/-- Both keys and, of the others, an empty payload. -/
def json : Json where
  dump event := idKey ++ (escape event.eventId ++ '"' :: (typeKey ++ (escape event.eventType ++
    '"' :: [',', '"', 'p', 'a', 'y', 'l', 'o', 'a', 'd', '"', ':', '{', '}', '}'])))
  parse text := do
    let (eventId, rest) ← unescape (text.drop idKey.length)
    let (eventType, _) ← unescape (rest.drop typeKey.length)
    some ⟨eventId, eventType⟩

theorem mem_escape {c : Char} (hc : c ≠ '\\') {text : Text} (h : c ∈ escape text) : c ∈ text := by
  induction text with
  | nil => exact h
  | cons d text ih =>
      rw [escape] at h
      refine List.mem_cons.mpr ?_
      split at h
      · rcases List.mem_cons.mp h with h | h
        · exact absurd h hc
        · exact (List.mem_cons.mp h).imp_right ih
      · exact (List.mem_cons.mp h).imp_right ih

theorem json_agrees : json.Agrees where
  dump_line event := by
    have hid := event.eventId_line
    have htype := event.eventType_line
    constructor <;>
      · intro hmem
        simp only [json, idKey, typeKey, List.mem_append, List.mem_cons, List.not_mem_nil] at hmem
        simp only [Char.reduceEq, false_or, or_false] at hmem
        rcases hmem with hmem | hmem
        · first | exact hid.1 (mem_escape (by decide) hmem) | exact hid.2 (mem_escape (by decide) hmem)
        · first
            | exact htype.1 (mem_escape (by decide) hmem)
            | exact htype.2 (mem_escape (by decide) hmem)
  parse_dump event := by
    simp only [json, List.drop_left, unescape_escape, Option.bind_eq_bind, Option.bind_some]
  parse_empty := rfl

/-- Keeps the bytes it has got and the text it has given out; gives out what is
new whenever the bytes end with a character. -/
def decoder : TextDecoder where
  State := ByteArray × Text
  init := (.empty, [])
  decode state chunk :=
    match (state.1 ++ chunk).utf8Decode? with
    | none => ((state.1 ++ chunk, state.2), [])
    | some text => ((state.1 ++ chunk, text.toList), text.toList.drop state.2.length)

theorem decode_some {bytes : ByteArray} {text : Array Char} (h : bytes.utf8Decode? = some text) :
    bytes = text.toList.utf8Encode := by
  have := ByteArray.utf8Encode_get_utf8Decode? (b := bytes) (h := by simp [h])
  simpa [h] using this.symm

theorem texts_decoder (chunks : List ByteArray) (text given : Text) (bytes rest : ByteArray)
    (hgiven : bytes = given.utf8Encode ++ rest) (hlast : chunks = [] → given = text)
    (h : bytes ++ joined chunks = text.utf8Encode) :
    given ++ (decoder.texts (bytes, given) chunks).flatten = text := by
  induction chunks generalizing given bytes rest with
  | nil => simp [TextDecoder.texts, hlast rfl]
  | cons chunk chunks ih =>
      have h' : bytes ++ chunk ++ joined chunks = text.utf8Encode := by
        rw [ByteArray.append_assoc]
        exact h
      have hwhole (hnil : chunks = []) : (bytes ++ chunk).utf8Decode? = some text.toArray := by
        have hbytes : bytes ++ chunk = text.utf8Encode := by simpa [hnil, joined] using h'
        rw [hbytes, List.utf8Decode?_utf8Encode]
      cases hdecode : (bytes ++ chunk).utf8Decode? with
      | none =>
          have hstep : decoder.decode (bytes, given) chunk = ((bytes ++ chunk, given), []) := by
            simp only [decoder, hdecode]
          rw [decoder.texts_cons (bytes, given), hstep]
          refine ih given (bytes ++ chunk) (rest ++ chunk) ?_ (fun hnil => ?_) h'
          · rw [hgiven, ByteArray.append_assoc]
          · rw [hwhole hnil] at hdecode
            cases hdecode
      | some found =>
          have hfound := decode_some hdecode
          have hstep : decoder.decode (bytes, given) chunk =
              ((bytes ++ chunk, found.toList), found.toList.drop given.length) := by
            simp only [decoder, hdecode]
          have hprefix : given <+: found.toList := by
            refine List.isPrefix_of_utf8Encode_append_eq_utf8Encode (rest ++ chunk) ?_
            rw [← hfound, hgiven, ByteArray.append_assoc]
          obtain ⟨new, hnew⟩ := hprefix
          have hrest := ih found.toList (bytes ++ chunk) .empty (by simpa using hfound)
            (fun hnil => ?_) h'
          · have hdrop : found.toList.drop given.length = new := by rw [← hnew, List.drop_left]
            rw [decoder.texts_cons (bytes, given), hstep, hdrop, List.flatten_cons,
              ← List.append_assoc, hnew]
            exact hrest
          · rw [hwhole hnil] at hdecode
            rw [← Option.some.inj hdecode]

theorem decoder_streams : decoder.Streams := by
  intro chunks text h _
  refine texts_decoder chunks text [] .empty .empty (by simp) (fun hnil => ?_) (by simpa using h)
  subst hnil
  exact (List.utf8Encode_eq_empty.mp h.symm).symm

/-- A change of status. -/
def changed : LiveEvent where
  eventId := ['e', '1']
  eventType := ['r', 'u', 'n', '.', 'r', 'u', 'n', 'n', 'i', 'n', 'g']
  runId := 201
  occurredAt := 0
  payload := []
  eventId_line := ⟨by decide, by decide⟩
  eventType_line := ⟨by decide, by decide⟩

end Demo

/-- The same event on two connections, the first cut in two: one invalidation. -/
theorem stream_round_trip_replayed :
    ∃ chunks, (connect Demo.json Demo.decoder .init chunks).invalidations =
      [Demo.changed.received] := by
  let encoded := (streamRun Demo.json [Demo.changed]).utf8Encode
  refine ⟨[[encoded, .empty], [encoded]], ?_⟩
  have h := stream_round_trip Demo.json_agrees Demo.decoder_streams
    [([Demo.changed], [encoded, .empty]), ([Demo.changed], [encoded])] (by simp [encoded, joined])
  exact h.2.1.trans (by decide)

end Runscope
