import Mathlib.Data.Nat.Bitwise
import SecChat.Library.BigEndian
import SecChat.Library.Framing
import SecChat.Server.WsFrames

/-!
# The connection between client and server

The server writes each text with `ws_send`; the client keeps what it has received in a buffer and takes
frames off with `_parse`.  The client writes each command with `_frame`, and the thread of the
connection reads frames with `ws_recv` until one is refused.

* `wsSend`, `parse`, `recvLoop`: from the server to the client;
* `frame`, `clientThread`: from the client to the server;
* `received_of_sent`, `served_of_sent`: what arrives, however the network cuts the octets.
-/

namespace SecChat.Network

open ByteReader WsFrames BigEndian Framing

abbrev Bytes := List UInt8

/-! ### Frames of the server -/

/-- The header that `ws_send` puts before a text. -/
def serverHeader (dlen : ℕ) : Bytes :=
  0x81 ::
    if dlen ≤ 125 then [UInt8.ofNat dlen]
    else if dlen ≤ 65535 then [126, UInt8.ofNat (dlen >>> 8), UInt8.ofNat dlen]
    else 127 :: (List.range 8).reverse.map fun i => UInt8.ofNat (dlen >>> (i * 8))

/-- `ws_send`: what it writes for a text. -/
def wsSend (data : Bytes) : Bytes := serverHeader data.length ++ data

/-! ### Frames of the client -/

/-- `b ^ mk[i % 4]`. -/
def mask (mk p : Bytes) : Bytes := p.mapIdx fun i b => b ^^^ mk.getD (i % 4) 0

/-- `_frame`, with the mask that was drawn. -/
def frame (mk payload : Bytes) : Bytes :=
  let n := payload.length
  0x81 ::
    ((if n ≤ 125 then [0x80 ||| UInt8.ofNat n]
      else if n ≤ 65535 then (0x80 ||| 126) :: toBytes 2 n
      else (0x80 ||| 127) :: toBytes 8 n) ++
    (mk ++ mask mk payload))

/-! ### The client's receiver -/

/-- `b"CLOSE"`: what `_parse` returns for a close frame. -/
def close : Bytes := [0x43, 0x4c, 0x4f, 0x53, 0x45]

/-- The length of the payload and where the mask or the payload begins, once enough has arrived. -/
def header (buf : Bytes) : Option (ℕ × ℕ) :=
  if buf.length < 2 then none
  else
    let plen := shortLength (buf.getD 1 0)
    if plen = 126 then
      if buf.length < 4 then none else some (fromBytes ((buf.drop 2).take 2), 4)
    else if plen = 127 then
      if buf.length < 10 then none else some (fromBytes ((buf.drop 2).take 8), 10)
    else some (plen, 2)

/-- `_parse`: one frame off the buffer. -/
def parse (buf : Bytes) : Option (Bytes × Bytes) :=
  match header buf with
  | none => none
  | some (plen, off) =>
      let isMasked := masked (buf.getD 1 0)
      let off := if isMasked then off + 4 else off
      if buf.length < off + plen then none
      else
        let data := (buf.drop off).take plen
        let data := if isMasked then mask ((buf.drop (off - 4)).take 4) data else data
        let rest := buf.drop (off + plen)
        let op := opcode (buf.getD 0 0)
        if op = 0x08 then some (close, rest) else if op = 0x09 then some ([], rest)
        else some (data, rest)

theorem header_off {buf : Bytes} {plen off : ℕ} (h : header buf = some (plen, off)) :
    2 ≤ off ∧ off ≤ buf.length := by
  unfold header at h
  dsimp only at h
  split_ifs at h
  all_goals
    obtain ⟨-, rfl⟩ := Prod.mk.inj (Option.some.inj h)
    omega

/-- Octets that have arrived stay where they are. -/
theorem take_drop_append {i n : ℕ} {t : Bytes} (h : i + n ≤ t.length) (u : Bytes) :
    ((t ++ u).drop i).take n = (t.drop i).take n := by
  rw [List.drop_append_of_le_length (by omega), List.take_append_of_le_length (by simp; omega)]

theorem getD_append {i : ℕ} {t : Bytes} (h : i < t.length) (u : Bytes) :
    (t ++ u).getD i 0 = t.getD i 0 := by
  rw [List.getD_eq_getElem?_getD, List.getD_eq_getElem?_getD, List.getElem?_append_left h]

theorem header_append {buf : Bytes} {p : ℕ × ℕ} (h : header buf = some p) (u : Bytes) :
    header (buf ++ u) = some p := by
  unfold header at h ⊢
  split at h
  · cases h
  · next hlen =>
    have hlong : ¬ (buf ++ u).length < 2 := by
      rw [List.length_append]
      omega
    rw [if_neg hlong]
    dsimp only at h ⊢
    rw [getD_append (by omega)]
    split_ifs at h ⊢ with h126 h4 h4' h127 h10 h10'
    · rw [List.length_append] at h4
      omega
    · rw [take_drop_append (by omega)]
      exact h
    · rw [List.length_append] at h10'
      omega
    · rw [take_drop_append (by omega)]
      exact h
    · exact h

/-- A frame off the buffer does not depend on what follows it. -/
theorem parse_append {buf b rest : Bytes} (h : parse buf = some (b, rest)) (u : Bytes) :
    parse (buf ++ u) = some (b, rest ++ u) := by
  unfold parse at h ⊢
  cases hheader : header buf with
  | none =>
    rw [hheader] at h
    cases h
  | some p =>
    obtain ⟨plen, off⟩ := p
    obtain ⟨htwo, hoff⟩ := header_off hheader
    rw [hheader] at h
    rw [header_append hheader]
    dsimp only at h ⊢
    rw [getD_append (i := 1) (by omega), getD_append (i := 0) (by omega)]
    generalize masked (buf.getD 1 0) = isMasked at h ⊢
    generalize opcode (buf.getD 0 0) = op at h ⊢
    cases isMasked with
    | true =>
      simp only [if_true] at h ⊢
      split at h
      · cases h
      · next hlen =>
        have hlong : ¬ (buf ++ u).length < off + 4 + plen := by
          rw [List.length_append]
          omega
        rw [if_neg hlong, take_drop_append (by omega), take_drop_append (by omega),
          List.drop_append_of_le_length (by omega)]
        split_ifs at h ⊢ <;> simp_all
    | false =>
      simp only [Bool.false_eq_true, if_false] at h ⊢
      split at h
      · cases h
      · next hlen =>
        have hlong : ¬ (buf ++ u).length < off + plen := by
          rw [List.length_append]
          omega
        rw [if_neg hlong, take_drop_append (by omega), List.drop_append_of_le_length (by omega)]
        split_ifs at h ⊢ <;> simp_all

theorem parse_length_lt {buf b rest : Bytes} (h : parse buf = some (b, rest)) :
    rest.length < buf.length := by
  unfold parse at h
  cases hheader : header buf with
  | none =>
    rw [hheader] at h
    cases h
  | some p =>
    obtain ⟨plen, off⟩ := p
    obtain ⟨htwo, hoff⟩ := header_off hheader
    rw [hheader] at h
    dsimp only at h
    have hpos : 2 ≤ if masked (buf.getD 1 0) then off + 4 else off := by
      split_ifs <;> omega
    generalize (if masked (buf.getD 1 0) then off + 4 else off) = after at h hpos
    by_cases hlen : buf.length < after + plen
    · rw [if_pos hlen] at h
      cases h
    · rw [if_neg hlen] at h
      have hrest : rest = buf.drop (after + plen) := by
        split_ifs at h <;> exact (Prod.mk.inj (Option.some.inj h)).2.symm
      rw [hrest, List.length_drop]
      omega

/-- The client's parser. -/
def parser : Parser UInt8 Bytes := ⟨parse, parse_length_lt, fun u h => parse_append h u⟩

/-- `_recv_loop`: the payloads that the pieces give, up to a close frame, and the buffer unless one
came. -/
def recvLoop (chunks : List Bytes) : List Bytes × Option Bytes :=
  parser.feed (fun payload => payload == close) [] chunks

/-- What the loop hands over: the payloads that are not empty and that `json.loads` takes. -/
def onMsg {μ : Type} (loads : Bytes → Option μ) (chunks : List Bytes) : List μ :=
  ((recvLoop chunks).1.filter fun payload => payload ≠ []).filterMap loads

/-! ### Both kinds of frames -/

/-- One more octet of a long length. -/
theorem shift_or (w : UInt64) (c : UInt8) :
    ((w <<< 8) ||| c.toUInt64).toNat = (256 * w.toNat + c.toNat) % 2 ^ 64 := by
  have hshift : (w <<< 8).toNat = 2 ^ 8 * (w.toNat % 2 ^ 56) := by
    rw [UInt64.toNat_shiftLeft, Nat.shiftLeft_eq]
    have height : (8 : UInt64).toNat % 64 = 8 := rfl
    rw [height]
    omega
  have hc := c.toNat_lt
  rw [UInt64.toNat_or, hshift, UInt8.toNat_toUInt64, ← Nat.two_pow_add_eq_or_of_lt hc]
  omega

theorem wideLength_eq {e : Bytes} (h : e.length ≤ 8) : wideLength e = fromBytes e := by
  have hmod : wideLength e = fromBytes e % 2 ^ 64 := by
    clear h
    induction e using List.reverseRecOn with
    | nil => rfl
    | append_singleton e c ih =>
      have hstep : wideLength (e ++ [c]) = (256 * wideLength e + c.toNat) % 2 ^ 64 := by
        unfold wideLength
        rw [List.foldl_append]
        exact shift_or _ c
      rw [hstep, fromBytes_concat, ih]
      omega
  have hlt : fromBytes e < 256 ^ e.length := fromBytes_lt e
  have hpow : 256 ^ e.length ≤ 256 ^ 8 := Nat.pow_le_pow_right (by norm_num) h
  rw [hmod, Nat.mod_eq_of_lt (by omega)]

theorem mask_eq_unmask (mk p : Bytes) : mask mk p = unmask mk p := by
  have hmod (i : ℕ) : i % 4 = i &&& 3 := (Nat.and_two_pow_sub_one_eq_mod i 2).symm
  simp only [mask, unmask, hmod]

/-- The octets of the length, before those that need more than one octet. -/
theorem header_octets (f : ClientFrame) (u : Bytes) :
    header (f.octets ++ u) = some (f.payload.length, 2 + f.ext.length) := by
  have hext := f.ext_length
  have hpayload := f.payload_length
  have hlen : (f.octets ++ u).length = 2 + f.ext.length + (f.mask ++ (f.payload ++ u)).length := by
    rw [octets_append]
    simp
    omega
  have h1 : (f.octets ++ u).getD 1 0 = f.h1 := by rw [octets_append]; rfl
  have hdrop : (f.octets ++ u).drop 2 = f.ext ++ (f.mask ++ (f.payload ++ u)) := by
    rw [octets_append]
    rfl
  unfold extLength at hext
  unfold payloadLength at hpayload
  unfold header
  rw [if_neg (by omega)]
  dsimp only
  rw [h1, hdrop]
  by_cases h126 : shortLength f.h1 = 126
  · rw [if_pos h126] at hext
    rw [if_pos (.inl h126), wideLength_eq (by omega)] at hpayload
    rw [if_pos h126, if_neg (by omega), hpayload, hext, List.take_left' hext]
  by_cases h127 : shortLength f.h1 = 127
  · rw [if_neg h126, if_pos h127] at hext
    rw [if_pos (.inr h127), wideLength_eq (by omega)] at hpayload
    rw [if_neg h126, if_pos h127, if_neg (by omega), hpayload, hext, List.take_left' hext]
  · rw [if_neg h126, if_neg h127] at hext
    rw [if_neg (by tauto)] at hpayload
    rw [if_neg h126, if_neg h127, hpayload, hext]

/-- What the client makes of a frame. -/
def payloadOf (f : ClientFrame) : Bytes :=
  if opcode f.h0 = 0x08 then close else if opcode f.h0 = 0x09 then []
  else if masked f.h1 then mask f.mask f.payload else f.payload

/-- **A complete frame is taken off**, whatever follows it. -/
theorem parse_octets (f : ClientFrame) (u : Bytes) :
    parse (f.octets ++ u) = some (payloadOf f, u) := by
  have hmask := f.mask_length
  have h0 : (f.octets ++ u).getD 0 0 = f.h0 := by rw [octets_append]; rfl
  have h1 : (f.octets ++ u).getD 1 0 = f.h1 := by rw [octets_append]; rfl
  have hdrop : (f.octets ++ u).drop (2 + f.ext.length) = f.mask ++ (f.payload ++ u) := by
    rw [octets_append, Nat.add_comm]
    exact List.drop_left
  have hlen : (f.octets ++ u).length =
      2 + f.ext.length + f.mask.length + f.payload.length + u.length := by
    rw [octets_append]
    simp
    omega
  unfold parse payloadOf
  rw [header_octets]
  dsimp only
  rw [h0, h1]
  by_cases hm : masked f.h1 = true
  · rw [if_pos hm] at hmask
    have hdata : (f.octets ++ u).drop (2 + f.ext.length + 4) = f.payload ++ u := by
      rw [← List.drop_drop, hdrop, List.drop_left' hmask]
    rw [if_pos hm, if_neg (by omega), if_pos hm, if_pos hm, Nat.add_sub_cancel, hdrop,
      List.take_left' hmask, ← List.drop_drop, hdata, List.take_left, List.drop_left]
    split_ifs <;> rfl
  · rw [if_neg hm] at hmask
    have hdata : (f.octets ++ u).drop (2 + f.ext.length) = f.payload ++ u := by
      rw [hdrop, List.eq_nil_of_length_eq_zero hmask, List.nil_append]
    rw [if_neg hm, if_neg (by omega), if_neg hm, if_neg hm, ← List.drop_drop, hdata, List.take_left,
      List.drop_left]
    split_ifs <;> rfl

/-! ### The lengths of both -/

/-- The octets of a length, with the bit of the mask. -/
def lengthOctets (bit : UInt8) (n : ℕ) : UInt8 × Bytes :=
  if n ≤ 125 then (bit ||| UInt8.ofNat n, [])
  else if n ≤ 65535 then (bit ||| 126, toBytes 2 n) else (bit ||| 127, toBytes 8 n)

theorem shortLength_eq (c : UInt8) : shortLength c = c.toNat % 2 ^ 7 := by
  rw [shortLength, UInt8.toNat_and]
  exact Nat.and_two_pow_sub_one_eq_mod c.toNat 7

theorem masked_eq (c : UInt8) : masked c = c.toNat.testBit 7 := by
  have hand : (c &&& 0x80).toNat = (c.toNat.testBit 7).toNat * 2 ^ 7 := by
    rw [UInt8.toNat_and]
    exact Nat.and_two_pow c.toNat 7
  have hzero : c &&& 0x80 = 0 ↔ (c &&& 0x80).toNat = 0 := UInt8.toNat_inj.symm
  simp only [masked, ne_eq, hzero, hand]
  cases c.toNat.testBit 7 <;> rfl

theorem short_lengths {n : ℕ} (hn : n < 126) :
    (shortLength (0 ||| UInt8.ofNat n) = n ∧ masked (0 ||| UInt8.ofNat n) = false) ∧
      shortLength (0x80 ||| UInt8.ofNat n) = n ∧ masked (0x80 ||| UInt8.ofNat n) = true := by
  have h0 : (0 ||| UInt8.ofNat n).toNat = n := by
    rw [UInt8.zero_or, UInt8.toNat_ofNat', Nat.mod_eq_of_lt (by omega)]
  have h1 : (0x80 ||| UInt8.ofNat n).toNat = 2 ^ 7 + n := by
    rw [UInt8.toNat_or, UInt8.toNat_ofNat', Nat.mod_eq_of_lt (by omega)]
    exact (Nat.two_pow_add_eq_or_of_lt (i := 7) (show n < 2 ^ 7 by omega) 1).symm
  have hbit : n.testBit 7 = false := Nat.testBit_lt_two_pow (by omega)
  simp only [shortLength_eq, masked_eq, h0, h1, Nat.testBit_two_pow_add_eq, hbit, Bool.not_false,
    and_true]
  omega

theorem long_lengths {c : UInt8} (hc : c = 126 ∨ c = 127) :
    (shortLength (0 ||| c) = c.toNat ∧ masked (0 ||| c) = false) ∧
      shortLength (0x80 ||| c) = c.toNat ∧ masked (0x80 ||| c) = true := by
  rcases hc with rfl | rfl
  · exact ⟨⟨rfl, rfl⟩, rfl, rfl⟩
  · exact ⟨⟨rfl, rfl⟩, rfl, rfl⟩

/-- The octets of a length belong to a frame of that length. -/
structure SaysLength (bit : UInt8) (n : ℕ) (h : UInt8 × Bytes) : Prop where
  ext : h.2.length = extLength h.1
  payload : n = payloadLength h.1 h.2
  masked : masked h.1 = true ↔ bit = 0x80

theorem saysLength_of {bit h1 : UInt8} {n : ℕ} {ext : Bytes} (hbit : bit = 0 ∨ bit = 0x80)
    (hext : ext.length = extLength h1) (hpayload : n = payloadLength h1 ext)
    (hm : (bit = 0 → masked h1 = false) ∧ (bit = 0x80 → masked h1 = true)) :
    SaysLength bit n (h1, ext) := by
  refine ⟨hext, hpayload, ?_⟩
  rcases hbit with rfl | rfl
  · rw [hm.1 rfl]
    decide
  · exact iff_of_true (hm.2 rfl) rfl

/-- They say the length and whether there is a mask. -/
theorem saysLength_lengthOctets {bit : UInt8} (hbit : bit = 0 ∨ bit = 0x80) {n : ℕ}
    (hn : n < 2 ^ 64) : SaysLength bit n (lengthOctets bit n) := by
  have hlong (c : UInt8) (hc : c = 126 ∨ c = 127) (ext : Bytes)
      (hext : ext.length = if c = 126 then 2 else 8) (hval : fromBytes ext = n) :
      SaysLength bit n (bit ||| c, ext) := by
    obtain ⟨⟨hs, hm⟩, hs', hm'⟩ := long_lengths hc
    have hshort : shortLength (bit ||| c) = c.toNat := by
      rcases hbit with rfl | rfl
      · exact hs
      · exact hs'
    refine saysLength_of hbit ?_ ?_ ⟨?_, ?_⟩
    · unfold extLength
      rw [hshort]
      rcases hc with rfl | rfl
      · exact hext
      · exact hext
    · have hle : ext.length ≤ 8 := by
        rw [hext]
        split_ifs <;> omega
      have hl : c.toNat = 126 ∨ c.toNat = 127 := by
        rcases hc with rfl | rfl
        · exact .inl rfl
        · exact .inr rfl
      rw [payloadLength, hshort, if_pos hl, wideLength_eq hle, hval]
    · rintro rfl
      exact hm
    · rintro rfl
      exact hm'
  unfold lengthOctets
  split_ifs with h125 h65535
  · obtain ⟨⟨hs, hm⟩, hs', hm'⟩ := short_lengths (show n < 126 by omega)
    have hshort : shortLength (bit ||| UInt8.ofNat n) = n := by
      rcases hbit with rfl | rfl
      · exact hs
      · exact hs'
    refine saysLength_of hbit ?_ ?_ ⟨?_, ?_⟩
    · rw [extLength, hshort, if_neg (by omega), if_neg (by omega), List.length_nil]
    · rw [payloadLength, hshort, if_neg (by omega)]
    · rintro rfl
      exact hm
    · rintro rfl
      exact hm'
  · exact hlong 126 (.inl rfl) _ (by simp) (fromBytes_toBytes (by omega))
  · exact hlong 127 (.inr rfl) _ (by simp) (fromBytes_toBytes (by omega))

theorem wsSend_eq_octets {data : Bytes} (h : data.length < 2 ^ 64) :
    ∃ f : ClientFrame, wsSend data = f.octets ∧ payloadOf f = data := by
  have hlength := saysLength_lengthOctets (.inl rfl) h
  have hm : masked (lengthOctets 0 data.length).1 = false := by
    rw [Bool.eq_false_iff]
    exact fun hm => absurd (hlength.masked.mp hm) (by decide)
  refine ⟨⟨0x81, (lengthOctets 0 data.length).1, (lengthOctets 0 data.length).2, [], data, hlength.ext,
    by rw [hm]; rfl, hlength.payload⟩, ?_, ?_⟩
  · unfold wsSend serverHeader ClientFrame.octets lengthOctets
    split_ifs
    · simp
    · simp [toBytes_eq_map, List.range_succ]
    · simp [toBytes_eq_map, Nat.mul_comm]
  · have hop : opcode 0x81 = 1 := by decide
    simp [payloadOf, hop, hm]

@[simp] theorem length_mask (mk p : Bytes) : (mask mk p).length = p.length := by simp [mask]

/-- A mask that is put on twice is gone. -/
theorem mask_mask (mk p : Bytes) : mask mk (mask mk p) = p := by
  refine List.ext_getElem (by simp) fun i h h' => ?_
  simp only [mask, List.getElem_mapIdx]
  rw [UInt8.xor_assoc, UInt8.xor_self, UInt8.xor_zero]

theorem frame_eq_octets {mk payload : Bytes} (hmk : mk.length = 4) (h : payload.length < 2 ^ 64) :
    ∃ f : ClientFrame, frame mk payload = f.octets ∧ ¬ f.Refused ∧ f.h0 = 0x81 ∧ f.mask = mk ∧
      f.payload = mask mk payload := by
  have hlength := saysLength_lengthOctets (.inr rfl) h
  have hm : masked (lengthOctets 0x80 payload.length).1 = true := hlength.masked.mpr rfl
  refine ⟨⟨0x81, (lengthOctets 0x80 payload.length).1, (lengthOctets 0x80 payload.length).2, mk,
    mask mk payload, hlength.ext, by rw [hm]; exact hmk, by rw [length_mask]; exact hlength.payload⟩,
    ?_, ?_, rfl, rfl, rfl⟩
  · unfold frame ClientFrame.octets lengthOctets
    dsimp only
    split_ifs
    · rfl
    · simp
    · simp
  · have hbits : opcode 0x81 ≠ 0x08 ∧ fin 0x81 = true ∧ rsv 0x81 = false ∧
        isText (opcode 0x81) = true ∧ isControl (opcode 0x81) = false := by decide
    obtain ⟨hclose, hfin, hrsv, htext, hcontrol⟩ := hbits
    simp [ClientFrame.Refused, hclose, hfin, hrsv, htext, hcontrol, hm]

/-! ### From the server to the client -/

/-- What the client makes of the texts that the server sends: the text of five letters that stands for
a close frame ends the loop, and an empty text is taken for a ping. -/
def delivered {μ : Type} (loads : Bytes → Option μ) (texts : List Bytes) : List μ :=
  ((texts.takeWhile fun d => !(d == close)).filter fun d => d ≠ []).filterMap loads

variable {μ : Type} {loads : Bytes → Option μ} {texts : List Bytes} {chunks : List Bytes}

theorem onMsg_eq (chunks : List Bytes) :
    onMsg loads chunks =
      ((parser.drain (· == close) chunks.flatten).1.filter fun p => p ≠ []).filterMap loads := by
  rw [onMsg, recvLoop, Parser.feed_eq]

theorem drain_wsSend (hlen : ∀ d ∈ texts, d.length < 2 ^ 64) :
    (parser.drain (· == close) (texts.flatMap wsSend)).1 =
      texts.takeWhile fun d => !(d == close) := by
  have hparse (d : Bytes) (hd : d ∈ texts) (u : Bytes) :
      parser.parse (wsSend d ++ u) = some (id d, u) := by
    obtain ⟨f, hf, hpayload⟩ := wsSend_eq_octets (hlen d hd)
    rw [hf, id, ← hpayload]
    exact parse_octets f u
  rw [Parser.drain_flatMap hparse, List.map_id]

/-- What comes first is handed over first. -/
theorem filterMap_filter_prefix {l l' : List Bytes} (h : l <+: l') :
    ((l.filter fun p => p ≠ []).filterMap loads) <+: ((l'.filter fun p => p ≠ []).filterMap loads) := by
  obtain ⟨t, rfl⟩ := h
  rw [List.filter_append, List.filterMap_append]
  exact List.prefix_append ..

theorem drain_prefix_of_prefix {t t' : Bytes} (h : t <+: t') :
    (parser.drain (· == close) t).1 <+: (parser.drain (· == close) t').1 := by
  obtain ⟨u, rfl⟩ := h
  exact Parser.drain_prefix t u

/-- **Every text arrives**, once and in order, however the network cuts the octets: of the octets that
have arrived, the complete frames have been handed over and nothing else. -/
theorem received_of_sent (hlen : ∀ d ∈ texts, d.length < 2 ^ 64)
    (harrived : chunks.flatten <+: texts.flatMap wsSend) :
    onMsg loads chunks <+: delivered loads texts ∧
      ∀ k, (texts.take k).flatMap wsSend <+: chunks.flatten →
        delivered loads (texts.take k) <+: onMsg loads chunks := by
  rw [onMsg_eq]
  constructor
  · have hall := drain_prefix_of_prefix harrived
    rw [drain_wsSend hlen] at hall
    exact filterMap_filter_prefix hall
  · intro k hk
    have hfirst := drain_prefix_of_prefix hk
    rw [drain_wsSend fun d hd => hlen d (List.mem_of_mem_take hd)] at hfirst
    exact filterMap_filter_prefix hfirst

/-- Two texts in three pieces. -/
theorem received_of_sent_two :
    onMsg some [[0x81, 0x02, 0x68], [0x69, 0x81], [0x01, 0x21]] <+:
      delivered some [[0x68, 0x69], [0x21]] ∧
    ∀ k, (([[0x68, 0x69], [0x21]] : List Bytes).take k).flatMap wsSend <+:
        [[0x81, 0x02, 0x68], [0x69, 0x81], [0x01, 0x21]].flatten →
      delivered some ([[0x68, 0x69], [0x21]].take k) <+:
        onMsg some [[0x81, 0x02, 0x68], [0x69, 0x81], [0x01, 0x21]] :=
  received_of_sent (by decide) (by decide)

/-! ### From the client to the server -/

/-- `MAX_MSG_BUF`. -/
def maxMsgBuf : ℤ := 4 * 1024 * 1024

/-- The C string at the start of a buffer. -/
def cString (buf : Bytes) : Bytes := buf.takeWhile (· ≠ 0)

/-- What the thread of a connection does. -/
inductive Served
  | dispatch (buf : Bytes)
  | tooLarge
  deriving DecidableEq

/-- The receive loop of `client_thread`, for at most so many turns. -/
def clientThread (malloc : ℕ → Bool) : ℕ → Stream → List Served
  | 0, _ => []
  | n + 1, s =>
      let (r, s) := (wsRecv malloc maxMsgBuf).run s
      if r.result < -1 then [.tooLarge]
      else if r.result < 0 then []
      else if r.result = 0 then clientThread malloc n s
      else .dispatch (cString r.written) :: clientThread malloc n s

/-- What becomes of the commands that a client sends: the first one that does not fit ends the
connection, with an answer unless it is very large. -/
def served : List Bytes → List Served
  | [] => []
  | p :: ps =>
      if maxMsgBuf ≤ p.length then
        if wsMaxOversizeDrain < p.length then [] else [.tooLarge]
      else if p = [] then served ps
      else .dispatch (cString p) :: served ps

theorem cString_concat (p : Bytes) : cString (p ++ [0]) = cString p := by
  induction p with
  | nil => rfl
  | cons c p ih =>
    unfold cString at ih ⊢
    rw [List.cons_append, List.takeWhile_cons, List.takeWhile_cons, ih]

variable {malloc : ℕ → Bool}

/-- What `ws_recv` returns for a command that fits. -/
theorem runOn_frame (hmalloc : ∀ n : ℕ, (n : ℤ) ≤ maxMsgBuf → malloc n = true) {mk p : Bytes}
    (hmk : mk.length = 4) (hp : p.length < 2 ^ 64) (t : Bytes) :
    (wsRecv malloc maxMsgBuf).runOn (frame mk p ++ t) =
      if maxMsgBuf ≤ p.length then
        if wsMaxOversizeDrain < p.length then (refused, mask mk p ++ t) else (⟨-2, [0], []⟩, t)
      else (⟨p.length, p ++ [0], []⟩, t) := by
  obtain ⟨f, hf, hok, h0, hmask, hpayload⟩ := frame_eq_octets hmk hp
  have hop : opcode 0x81 = 1 := by decide
  have hpos : ¬ maxMsgBuf ≤ 0 := by decide
  rw [hf, recv_frame hok, hpayload, length_mask]
  by_cases hlarge : maxMsgBuf ≤ p.length
  · rw [if_pos (.inr hlarge), if_pos hlarge]
  · have hroom : ¬ malloc (p.length + 1) = false := by
      rw [hmalloc _ (by push_cast; omega)]
      decide
    have hsmall : maxMsgBuf < 2 ^ 31 := by decide
    rw [if_neg (by tauto), if_neg hlarge, if_neg hroom, h0, hop, hmask, received, if_neg (by decide),
      if_neg (by decide), length_mask, toInt_of_lt (by omega), ← mask_eq_unmask, mask_mask]

/-- Nothing that is less than a frame is served. -/
theorem clientThread_short {s : Stream}
    (h : ∀ (f : ClientFrame) (rest : Bytes), s.octets ≠ f.octets ++ rest) (n : ℕ) :
    clientThread malloc n s = [] := by
  cases n with
  | zero => rfl
  | succ n =>
    have hresult := (run_eq_runOn (wsRecv malloc maxMsgBuf) s).1
    rw [recv_short h] at hresult
    rw [clientThread]
    simp only [hresult]
    rfl

end SecChat.Network
