import Resonate.Lib.Scanner
import Mathlib.Data.List.DropRight

/-!
# The event stream

`stream_sse` of `http_network.rs`: each chunk that is UTF-8 is appended to a buffer, from
which the blocks that a blank line ends are taken; a `data:` line of a block is a payload. A
chunk that is not UTF-8 by itself is skipped, so a cut inside a character loses both chunks.
Every subscriber is handed every payload, in this order.
-/

namespace Resonate.Sse
open Lib

def fromUtf8 (bytes : List UInt8) : Option (List Char) := bytes.toByteArray.utf8Decode?.map Array.toList

def isWhitespace (c : Char) : Bool :=
  (9 ≤ c.toNat ∧ c.toNat ≤ 13) ∨ c.toNat ∈ [0x20, 0x85, 0xA0, 0x1680, 0x2028, 0x2029, 0x202F,
    0x205F, 0x3000] ∨
    (0x2000 ≤ c.toNat ∧ c.toNat ≤ 0x200A)

def trim (text : List Char) : List Char := (text.dropWhile isWhitespace).rdropWhile isWhitespace

def stripSuffix (c : Char) (text : List Char) : List Char :=
  if text.getLast? = some c then text.dropLast else text

def stripPrefix (pre text : List Char) : Option (List Char) :=
  if pre.isPrefixOf text then some (text.drop pre.length) else none

/-- `str::lines`: an unterminated last line keeps its carriage return. -/
def lines (text : List Char) : List (List Char) :=
  (text.splitOn '\n').dropLast.map (stripSuffix '\r') ++ (text.splitOn '\n').getLast?.toList.filter
    (· ≠ [])

def dataPrefix : List Char := ['d', 'a', 't', 'a', ':']

def dataOf (line : List Char) : Option (List Char) :=
  ((stripPrefix dataPrefix line).map trim).filter (· ≠ [])

def payloadsOf (block : List Char) : List (List Char) := (lines block).filterMap dataOf

def nextBlock : List Char → Option (List Char × List Char)
  | [] => none
  | c :: cs =>
    if c = '\n' ∧ cs.head? = some '\n' then some ([], cs.tail)
    else (nextBlock cs).map fun found => (c :: found.1, found.2)

theorem nextBlock_shorter {xs b rest : List Char} (h : nextBlock xs = some (b, rest)) :
    rest.length < xs.length := by
  induction xs generalizing b rest with
  | nil => cases h
  | cons c cs ih =>
    rw [nextBlock] at h
    split_ifs at h
    · obtain ⟨rfl, rfl⟩ := Prod.mk.inj (Option.some.inj h)
      rw [List.length_tail, List.length_cons]
      omega
    · obtain ⟨found, hfound, heq⟩ := Option.map_eq_some_iff.mp h
      obtain ⟨-, rfl⟩ := Prod.mk.inj heq
      exact Nat.lt_succ_of_lt (ih hfound)

theorem nextBlock_extend {xs b rest : List Char} (ys : List Char) (h : nextBlock xs = some (b, rest)) :
    nextBlock (xs ++ ys) = some (b, rest ++ ys) := by
  induction xs generalizing b rest with
  | nil => cases h
  | cons c cs ih =>
    rw [List.cons_append, nextBlock]
    rw [nextBlock] at h
    split_ifs at h with hend
    · obtain ⟨rfl, rfl⟩ := Prod.mk.inj (Option.some.inj h)
      obtain ⟨hc, hcs⟩ := hend
      cases cs with
      | nil => cases hcs
      | cons d ds => rw [if_pos ⟨hc, hcs⟩, List.cons_append, List.tail_cons, List.tail_cons]
    · obtain ⟨found, hfound, heq⟩ := Option.map_eq_some_iff.mp h
      obtain ⟨rfl, rfl⟩ := Prod.mk.inj heq
      have hend' : ¬ (c = '\n' ∧ (cs ++ ys).head? = some '\n') := by
        cases cs with
        | nil => cases hfound
        | cons d ds => exact hend
      rw [if_neg hend', ih hfound]
      rfl

def blocks : Scanner Char (List Char) := ⟨nextBlock, nextBlock_shorter, nextBlock_extend⟩

/-- One chunk: the payloads handed to the subscribers so far, and the buffer. -/
def receive (st : List (List Char) × List Char) (chunk : List UInt8) : List (List Char) × List Char :=
  match fromUtf8 chunk with
  | none => st
  | some text =>
    (st.1 ++ (blocks.drain (st.2 ++ text)).1.flatMap payloadsOf, (blocks.drain (st.2 ++ text)).2)

/-- The payloads that the subscribers are handed, in order. -/
def streamSse (chunks : List (List UInt8)) : List (List Char) := (chunks.foldl receive ([], [])).1

def payloads (text : List Char) : List (List Char) := (blocks.drain text).1.flatMap payloadsOf

section Receiving

/-- The stream is read as the text of its chunks that are UTF-8. -/
theorem streamSse_eq (chunks : List (List UInt8)) :
    streamSse chunks = payloads (chunks.filterMap fromUtf8).flatten := by
  have hfold : ∀ (items : List (List Char)) (buffer : List Char),
      chunks.foldl receive (items.flatMap payloadsOf, buffer) =
        (((chunks.filterMap fromUtf8).foldl blocks.feed (items, buffer)).1.flatMap payloadsOf,
          ((chunks.filterMap fromUtf8).foldl blocks.feed (items, buffer)).2) := by
    induction chunks with
    | nil => exact fun _ _ => rfl
    | cons chunk chunks ih =>
      intro items buffer
      rw [List.foldl_cons, receive]
      cases hchunk : fromUtf8 chunk with
      | none => rw [List.filterMap_cons_none hchunk, ← ih]
      | some text =>
        dsimp only
        rw [List.filterMap_cons_some hchunk, List.foldl_cons, ← List.flatMap_append, ih]
        rfl
  have h := congrArg Prod.fst (hfold [] [])
  rw [Scanner.foldl_feed] at h
  exact h

end Receiving

section Utf8

variable {bytes : List UInt8} {text text' : List Char}

def encode (text : List Char) : List UInt8 := text.flatMap String.utf8EncodeChar

theorem encode_append : encode (text ++ text') = encode text ++ encode text' := List.flatMap_append ..

theorem toByteArray_encode (text : List Char) : (encode text).toByteArray = text.utf8Encode := rfl

theorem fromUtf8_eq_some : fromUtf8 bytes = some text ↔ bytes = encode text := by
  constructor
  · intro h
    obtain ⟨decoded, hdecoded, rfl⟩ := Option.map_eq_some_iff.mp h
    have hsome : bytes.toByteArray.utf8Decode?.isSome = true := by rw [hdecoded]; rfl
    have hget : bytes.toByteArray.utf8Decode?.get hsome = decoded :=
      Option.get_of_eq_some hsome hdecoded
    have hback : (bytes.toByteArray.utf8Decode?.get hsome).toList.utf8Encode = bytes.toByteArray :=
      ByteArray.utf8Encode_get_utf8Decode?
    rw [hget, ← toByteArray_encode] at hback
    exact (List.toByteArray_inj.mp hback).symm
  · rintro rfl
    rw [fromUtf8, toByteArray_encode, List.utf8Decode?_utf8Encode]
    simp

theorem encode_ofUInt8 {b : UInt8} (h : b < 128) : String.utf8EncodeChar (Char.ofUInt8 b) = [b] := by
  have hval : (Char.ofUInt8 b).val = b.toUInt32 := rfl
  rw [String.utf8EncodeChar_eq_singleton, hval, UInt8.toUInt8_toUInt32]
  rw [Char.utf8Size_eq_one_iff, hval, UInt32.le_iff_toNat_le, UInt8.toNat_toUInt32]
  exact Nat.le_of_lt_succ h

theorem encode_of_ascii (h : ∀ b ∈ bytes, b < 128) : encode (bytes.map Char.ofUInt8) = bytes := by
  induction bytes with
  | nil => rfl
  | cons b bytes ih =>
    rw [List.map_cons, encode, List.flatMap_cons, encode_ofUInt8 (h b (by simp))]
    exact congrArg (b :: ·) (ih fun c hc => h c (by simp [hc]))

def multibyte (bytes : List UInt8) : ℕ := bytes.countP fun b => 128 ≤ b

theorem multibyte_append (xs ys : List UInt8) : multibyte (xs ++ ys) = multibyte xs + multibyte ys :=
  List.countP_append

/-- A chunk that is not UTF-8 has a byte of such a character. -/
theorem multibyte_pos (h : fromUtf8 bytes = none) : 0 < multibyte bytes := by
  by_contra hzero
  have hascii : ∀ b ∈ bytes, b < 128 := by
    intro b hb
    by_contra hge
    exact hzero (List.countP_pos_iff.mpr ⟨b, hb, decide_eq_true (UInt8.not_lt.mp hge)⟩)
  have hsome : fromUtf8 bytes = some (bytes.map Char.ofUInt8) :=
    fromUtf8_eq_some.mpr (encode_of_ascii hascii).symm
  rw [h] at hsome
  cases hsome

theorem fromUtf8_flatten {chunks : List (List UInt8)} (h : ∀ c ∈ chunks, (fromUtf8 c).isSome) :
    chunks.flatten = encode (chunks.filterMap fromUtf8).flatten := by
  induction chunks with
  | nil => rfl
  | cons c chunks ih =>
    obtain ⟨text, htext⟩ := Option.isSome_iff_exists.mp (h c (by simp))
    rw [List.filterMap_cons_some htext, List.flatten_cons, List.flatten_cons, encode_append,
      ← ih fun d hd => h d (by simp [hd]), ← fromUtf8_eq_some.mp htext]

/-- The chunks that are skipped take some of these bytes with them. -/
theorem multibyte_skipped (chunks : List (List UInt8)) :
    multibyte (encode (chunks.filterMap fromUtf8).flatten) ≤ multibyte chunks.flatten ∧
      ((∃ c ∈ chunks, fromUtf8 c = none) →
        multibyte (encode (chunks.filterMap fromUtf8).flatten) < multibyte chunks.flatten) := by
  induction chunks with
  | nil => exact ⟨le_rfl, fun ⟨c, hc, _⟩ => by cases hc⟩
  | cons c chunks ih =>
    obtain ⟨hle, hlt⟩ := ih
    rw [List.flatten_cons, multibyte_append]
    cases hc : fromUtf8 c with
    | none =>
      have hpos := multibyte_pos hc
      rw [List.filterMap_cons_none hc]
      exact ⟨by omega, fun _ => by omega⟩
    | some text =>
      rw [List.filterMap_cons_some hc, List.flatten_cons, encode_append, multibyte_append,
        ← fromUtf8_eq_some.mp hc]
      refine ⟨by omega, fun hskip => ?_⟩
      obtain ⟨d, hd, hnone⟩ := hskip
      rcases List.mem_cons.mp hd with rfl | hd
      · rw [hc] at hnone
        cases hnone
      · have := hlt ⟨d, hd, hnone⟩
        omega

end Utf8

section Weight

variable {text line data block rest : List Char}

def weight (text : List Char) : ℕ := multibyte (encode text)

def weights : List (List Char) → ℕ
  | [] => 0
  | text :: texts => weight text + weights texts

theorem weight_append (xs ys : List Char) : weight (xs ++ ys) = weight xs + weight ys := by
  rw [weight, encode_append, multibyte_append, weight, weight]

theorem weight_cons (c : Char) (cs : List Char) : weight (c :: cs) = weight [c] + weight cs :=
  weight_append [c] cs

theorem weight_newline (cs : List Char) : weight ('\n' :: cs) = weight cs := by
  rw [weight_cons, show weight ['\n'] = 0 by decide, Nat.zero_add]

theorem weight_le_of_sublist {xs ys : List Char} (h : xs.Sublist ys) : weight xs ≤ weight ys := by
  induction h with
  | slnil => exact le_rfl
  | cons c _ ih =>
    rw [weight_cons]
    omega
  | @cons_cons xs ys c _ ih =>
    rw [weight_cons c xs, weight_cons c ys]
    omega

theorem weights_append (xs ys : List (List Char)) : weights (xs ++ ys) = weights xs + weights ys := by
  induction xs with
  | nil => exact (Nat.zero_add _).symm
  | cons text texts ih => rw [List.cons_append, weights, weights, ih, Nat.add_assoc]

theorem weights_filterMap {f : List Char → Option (List Char)}
    (h : ∀ x y, f x = some y → weight y ≤ weight x)
    (texts : List (List Char)) : weights (texts.filterMap f) ≤ weights texts := by
  induction texts with
  | nil => exact le_rfl
  | cons x texts ih =>
    rw [weights]
    cases hx : f x with
    | none =>
      rw [List.filterMap_cons_none hx]
      omega
    | some y =>
      have hle := h x y hx
      rw [List.filterMap_cons_some hx, weights]
      omega

theorem weights_splitOn (text : List Char) : weights (text.splitOn '\n') = weight text := by
  induction text with
  | nil => rfl
  | cons c cs ih =>
    rw [List.splitOn, List.splitOnP_cons_eq_if_modifyHead]
    rw [List.splitOn] at ih
    split_ifs with hc
    · rw [eq_of_beq hc, weight_newline, weights, ih]
      exact Nat.zero_add _
    · cases hs : List.splitOnP (fun x => x == '\n') cs with
      | nil => exact absurd hs (List.splitOnP_ne_nil _ _)
      | cons l ls =>
        rw [hs, weights] at ih
        rw [List.modifyHead_cons, weights, weight_cons, weight_cons c cs]
        omega

theorem weights_lines (text : List Char) : weights (lines text) ≤ weight text := by
  rw [← weights_splitOn, lines]
  cases hs : (text.splitOn '\n').getLast? with
  | none =>
    rw [List.getLast?_eq_none_iff.mp hs]
    exact le_rfl
  | some last =>
    have hsplit : text.splitOn '\n' = (text.splitOn '\n').dropLast ++ [last] :=
      (List.dropLast_append_getLast? last hs).symm
    have hdrop : ∀ ls : List (List Char), weights (ls.map (stripSuffix '\r')) ≤ weights ls := by
      intro ls
      rw [← List.filterMap_eq_map]
      refine weights_filterMap (fun x y hy => ?_) ls
      obtain rfl := Option.some.inj hy
      unfold stripSuffix
      split_ifs
      · exact weight_le_of_sublist (List.dropLast_sublist x)
      · exact le_rfl
    have hlast : weights (([last] : List (List Char)).filter (· ≠ [])) ≤ weights [last] := by
      rw [← List.filterMap_eq_filter]
      refine weights_filterMap (fun x y hy => ?_) _
      obtain ⟨rfl, -⟩ := Option.guard_eq_some_iff.mp hy
      exact le_rfl
    have hinit := hdrop (text.splitOn '\n').dropLast
    conv_rhs => rw [hsplit]
    rw [weights_append, weights_append, Option.toList_some]
    omega

theorem weight_dataOf (h : dataOf line = some data) : weight data ≤ weight line := by
  obtain ⟨htrim, -⟩ := Option.filter_eq_some_iff.mp h
  obtain ⟨stripped, hstripped, rfl⟩ := Option.map_eq_some_iff.mp htrim
  unfold stripPrefix at hstripped
  split_ifs at hstripped
  obtain rfl := Option.some.inj hstripped
  refine weight_le_of_sublist ?_
  exact ((List.rdropWhile_prefix _ _).sublist.trans (List.dropWhile_sublist _)).trans
    (List.drop_sublist _ _)

theorem weights_payloadsOf (block : List Char) : weights (payloadsOf block) ≤ weight block :=
  (weights_filterMap (fun _ _ => weight_dataOf) _).trans (weights_lines block)

theorem weight_nextBlock (h : nextBlock text = some (block, rest)) :
    weight text = weight block + weight rest := by
  induction text generalizing block rest with
  | nil => cases h
  | cons c cs ih =>
    rw [nextBlock] at h
    split_ifs at h with hend
    · obtain ⟨rfl, rfl⟩ := Prod.mk.inj (Option.some.inj h)
      obtain ⟨rfl, hcs⟩ := hend
      cases cs with
      | nil => cases hcs
      | cons d ds =>
        obtain rfl := Option.some.inj hcs
        rw [weight_newline, weight_newline, List.tail_cons]
        exact (Nat.zero_add _).symm
    · obtain ⟨found, hfound, heq⟩ := Option.map_eq_some_iff.mp h
      obtain ⟨rfl, rfl⟩ := Prod.mk.inj heq
      rw [weight_cons, weight_cons c found.1, ih hfound, Nat.add_assoc]

theorem weights_payloads (text : List Char) : weights (payloads text) ≤ weight text := by
  unfold payloads
  induction text using Scanner.drain_induction blocks with
  | hnone text h =>
    rw [Scanner.drain_none h]
    exact Nat.zero_le _
  | hsome text block rest h ih =>
    have hblock := weights_payloadsOf block
    rw [Scanner.drain_some h, List.flatMap_cons, weights_append, weight_nextBlock h]
    omega

end Weight

section Events

variable {d rest xs : List Char}

/-- A payload that is sent in an event of its own: one line without white space around it. -/
structure Payload (d : List Char) : Prop where
  ne_nil : d ≠ []
  one_line : '\n' ∉ d
  trimmed : trim d = d

def event (d : List Char) : List Char := dataPrefix ++ ' ' :: d ++ ['\n', '\n']

theorem nextBlock_line (h : '\n' ∉ xs) (rest : List Char) :
    nextBlock (xs ++ '\n' :: '\n' :: rest) = some (xs, rest) := by
  induction xs with
  | nil => rfl
  | cons c cs ih =>
    have hc : c ≠ '\n' := fun hc => h (by simp [hc])
    have hcs : '\n' ∉ cs := fun hcs => h (by simp [hcs])
    rw [List.cons_append, nextBlock, if_neg fun hend => hc hend.1, ih hcs]
    rfl

theorem lines_line (h : '\n' ∉ xs) (hne : xs ≠ []) : lines xs = [xs] := by
  have hsplit : xs.splitOn '\n' = [xs] := by
    refine List.splitOnP_eq_singleton fun c hc => ?_
    exact beq_eq_false_iff_ne.mpr fun heq => h (heq ▸ hc)
  rw [lines, hsplit]
  simp [hne]

theorem Payload.dataOf_line (h : Payload d) : dataOf (dataPrefix ++ ' ' :: d) = some d := by
  have hprefix : stripPrefix dataPrefix (dataPrefix ++ ' ' :: d) = some (' ' :: d) := by
    rw [stripPrefix, if_pos (List.isPrefixOf_iff_prefix.mpr (List.prefix_append _ _)), List.drop_left]
  have htrim : trim (' ' :: d) = d := by
    rw [trim, List.dropWhile_cons_of_pos (by decide)]
    exact h.trimmed
  rw [dataOf, hprefix, Option.map_some, htrim]
  exact Option.filter_eq_some_iff.mpr ⟨rfl, decide_eq_true h.ne_nil⟩

theorem Payload.one_line' (h : Payload d) : '\n' ∉ dataPrefix ++ ' ' :: d := by
  intro hmem
  rcases List.mem_append.mp hmem with hmem | hmem
  · exact absurd hmem (by decide)
  · rcases List.mem_cons.mp hmem with heq | hmem
    · exact absurd heq (by decide)
    · exact h.one_line hmem

theorem payloads_events {ds : List (List Char)} (h : ∀ d ∈ ds, Payload d) :
    payloads (ds.flatMap event) = ds := by
  induction ds with
  | nil => rfl
  | cons d ds ih =>
    have hd := h d (by simp)
    have hnext : blocks.next (event d ++ ds.flatMap event) =
        some (dataPrefix ++ ' ' :: d, ds.flatMap event) := by
      have hblock := nextBlock_line hd.one_line' (ds.flatMap event)
      rw [event, List.append_assoc]
      exact hblock
    have hrest : (blocks.drain (ds.flatMap event)).1.flatMap payloadsOf = ds :=
      ih fun c hc => h c (by simp [hc])
    rw [payloads, List.flatMap_cons, Scanner.drain_some hnext, List.flatMap_cons, hrest, payloadsOf,
      lines_line hd.one_line' (by simp [dataPrefix])]
    rw [List.filterMap_cons_some hd.dataOf_line]
    rfl

end Events

/-- Every character of several bytes in the stream is in a payload. -/
def AllDelivered (bytes : List UInt8) : Prop := multibyte bytes ≤ weights (streamSse [bytes])

section Chunks

variable {chunks : List (List UInt8)} {text : List Char}

theorem streamSse_one {bytes : List UInt8} (h : fromUtf8 bytes = some text) :
    streamSse [bytes] = payloads text := by
  rw [streamSse_eq, List.filterMap_cons_some h]
  simp

theorem delivered_of_events {ds : List (List Char)} (h : ∀ d ∈ ds, Payload d) :
    AllDelivered (encode (ds.flatMap event)) := by
  rw [AllDelivered, streamSse_one (fromUtf8_eq_some.mpr rfl), payloads_events h]
  have hevent : ∀ d, weight (event d) = weight d := by
    intro d
    rw [event, weight_append, weight_append, weight_cons, show weight dataPrefix = 0 by decide,
      show weight [' '] = 0 by decide, show weight ['\n', '\n'] = 0 by decide]
    omega
  have hall : ∀ ds : List (List Char), weight (ds.flatMap event) = weights ds := by
    intro ds
    induction ds with
    | nil => rfl
    | cons d ds ih => rw [List.flatMap_cons, weight_append, hevent, ih, weights]
  exact le_of_eq (hall ds)

theorem streamSse_of_whole (h : ∀ c ∈ chunks, (fromUtf8 c).isSome) :
    streamSse chunks = streamSse [chunks.flatten] := by
  rw [streamSse_eq, streamSse_one (fromUtf8_eq_some.mpr (fromUtf8_flatten h))]

/-- A chunk that is skipped takes a part of a payload with it. -/
theorem streamSse_ne_of_skipped (hall : AllDelivered chunks.flatten)
    (h : ∃ c ∈ chunks, fromUtf8 c = none) :
    streamSse chunks ≠ streamSse [chunks.flatten] := by
  intro heq
  have hlt := (multibyte_skipped chunks).2 h
  have hle : weights (streamSse chunks) ≤ weight (chunks.filterMap fromUtf8).flatten := by
    rw [streamSse_eq]
    exact weights_payloads _
  rw [AllDelivered, ← heq] at hall
  exact absurd (hall.trans hle) (not_le_of_gt hlt)

/-- The payloads do not depend on how the stream is cut into chunks that are UTF-8. Where every
character of several bytes is delivered, as in a stream of events, they do as soon as a cut
falls inside a character. -/
theorem chunking_exact (chunks : List (List UInt8)) :
    ((∀ c ∈ chunks, (fromUtf8 c).isSome) → streamSse chunks = streamSse [chunks.flatten]) ∧
      (AllDelivered chunks.flatten → (streamSse chunks = streamSse [chunks.flatten] ↔
        ∀ c ∈ chunks, (fromUtf8 c).isSome)) ∧
      ∀ ds, (∀ d ∈ ds, Payload d) → chunks.flatten = encode (ds.flatMap event) →
        (streamSse chunks = ds ↔ ∀ c ∈ chunks, (fromUtf8 c).isSome) := by
  have hiff : AllDelivered chunks.flatten → (streamSse chunks = streamSse [chunks.flatten] ↔
      ∀ c ∈ chunks, (fromUtf8 c).isSome) := by
    refine fun hall => ⟨fun heq c hc => ?_, streamSse_of_whole⟩
    by_contra hnone
    exact streamSse_ne_of_skipped hall ⟨c, hc, Option.not_isSome_iff_eq_none.mp hnone⟩ heq
  refine ⟨streamSse_of_whole, hiff, fun ds hds hflat => ?_⟩
  have hone : streamSse [chunks.flatten] = ds := by
    rw [streamSse_one (fromUtf8_eq_some.mpr hflat), payloads_events hds]
  have hevents := hiff (hflat ▸ delivered_of_events hds)
  rwa [hone] at hevents

/-- Two events, cut in the prefix, between the newlines and before a character. -/
theorem chunking_exact_two : streamSse [encode ['d', 'a'], encode ['t', 'a', ':', ' ', 'a'],
    encode ['é', '\n'], encode ('\n' :: event ['b'])] = [['a', 'é'], ['b']] := by
  have hpayloads : ∀ d ∈ [['a', 'é'], ['b']], Payload d := by
    intro d hd
    rcases List.mem_pair.mp hd with rfl | rfl
    · exact ⟨by decide, by decide, by decide⟩
    · exact ⟨by decide, by decide, by decide⟩
  have hexact := chunking_exact [encode ['d', 'a'], encode ['t', 'a', ':', ' ', 'a'],
    encode ['é', '\n'], encode ('\n' :: event ['b'])]
  exact (hexact.2.2 _ hpayloads (by decide)).mpr (by decide)

def cutEvent : List (List UInt8) := [[100, 97, 116, 97, 58, 32, 0xC3], [0xA9, 10, 10]]

theorem cutEvent_lost : (fromUtf8 cutEvent.flatten).isSome = true ∧
    streamSse [cutEvent.flatten] = [['é']] ∧ streamSse cutEvent = [] := by
  decide

end Chunks

end Resonate.Sse
