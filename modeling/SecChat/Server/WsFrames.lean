import SecChat.Library.ByteReader

/-!
# The two decoders of WebSocket frames

`ws_recv` reads a frame from a connection, `ws_decode_client_frame` takes one from memory and is the one
that is fuzzed.

* `wsDecodeClientFrame`, `wsRecv`: the decoders;
* `ClientFrame`: a complete frame;
* `decoders_agree`: they agree on a complete frame, `ws_recv` stops at its end, and refuses anything less.
-/

namespace SecChat.WsFrames

open ByteReader

/-! ### What both decoders compute -/

/-- The bits of the first octet and the bit of the second. -/
def opcode (h0 : UInt8) : UInt8 := h0 &&& 0x0f
def fin (h0 : UInt8) : Bool := h0 &&& 0x80 ≠ 0
def rsv (h0 : UInt8) : Bool := h0 &&& 0x70 ≠ 0
def masked (h1 : UInt8) : Bool := h1 &&& 0x80 ≠ 0

/-- The length in the second octet; 126 and 127 stand for a longer one. -/
def shortLength (h1 : UInt8) : ℕ := (h1 &&& 0x7f).toNat

/-- `plen = (plen << 8) | e[i]`, from the first octet to the last. -/
def wideLength (e : List UInt8) : ℕ :=
  (e.foldl (fun (wide : UInt64) c => (wide <<< 8) ||| c.toUInt64) 0).toNat

/-- `p[i] ^= mk[i & 3]`. -/
def unmask (mk p : List UInt8) : List UInt8 := p.mapIdx fun i c => c ^^^ mk.getD (i &&& 3) 0

/-- `(int)plen`. -/
def toInt (plen : ℕ) : ℤ := (Int32.ofNat plen).toInt

def isText (op : UInt8) : Bool := op = 0x01
def isControl (op : UInt8) : Bool := op = 0x09 ∨ op = 0x0a

/-! ### From memory -/

/-- The result, what was written to `out`, and `opcode_out`. -/
structure Decoded where
  result : ℤ
  written : List UInt8
  opcodeOut : ℤ
  deriving DecidableEq

/-- `plen` and what follows it. -/
def extended (plen : ℕ) (body : List UInt8) : Option (ℕ × List UInt8) :=
  if plen = 126 then
    if body.length < 2 then none else some (wideLength (body.take 2), body.drop 2)
  else if plen = 127 then
    if body.length < 8 then none
    else if 2 ^ 64 - 1 < wideLength (body.take 8) then none
    else some (wideLength (body.take 8), body.drop 8)
  else some (plen, body)

/-- `ws_decode_client_frame`; a pointer that is null is `none` or `false`. -/
def wsDecodeClientFrame (frame : Option (List UInt8)) (out : Bool) (maxlen : ℕ) : Decoded :=
  match frame with
  | some (h0 :: h1 :: body) =>
      let op := opcode h0
      let malformed : Decoded := ⟨-1, [], op.toNat⟩
      if op = 0x08 then malformed
      else if fin h0 = false ∨ rsv h0 then malformed
      else if isText op = false ∧ isControl op = false then malformed
      else
        match extended (shortLength h1) body with
        | none => malformed
        | some (plen, body) =>
            if isControl op ∧ 125 < plen then malformed
            else if masked h1 = false then malformed
            else if body.length < 4 then malformed
            else
              let mk := body.take 4
              let body := body.drop 4
              if out = false ∨ maxlen = 0 ∨ maxlen ≤ plen then ⟨-2, [], op.toNat⟩
              else if body.length < plen then malformed
              else
                ⟨if isControl op then 0 else toInt plen, unmask mk (body.take plen) ++ [0], op.toNat⟩
  | _ => ⟨-1, [], -1⟩

/-! ### From a connection -/

/-- The result, what was written to `out`, and what was sent. -/
structure Received where
  result : ℤ
  written : List UInt8
  sent : List UInt8
  deriving DecidableEq

/-- `return -1`. -/
def refused : Received := ⟨-1, [], []⟩

/-- `WS_MAX_OVERSIZE_DRAIN`. -/
def wsMaxOversizeDrain : ℕ := 32 * 1024 * 1024

/-- The loop that reads an oversized payload and throws it away. -/
def drain (next : Reader Received) (remaining : ℕ) : Reader Received :=
  if remaining = 0 then next
  else
    let chunk := if 4096 < remaining then 4096 else remaining
    .read chunk (fun _ => drain next (remaining - chunk)) refused
termination_by remaining
decreasing_by split <;> omega

/-- The length is read on when the second octet says so. -/
def readLength (plen : ℕ) (next : ℕ → Reader Received) : Reader Received :=
  if plen = 126 then .read 2 (fun e => next (wideLength e)) refused
  else if plen = 127 then .read 8 (fun e => next (wideLength e)) refused
  else next plen

/-- What is returned for a payload that was read. -/
def received (op : UInt8) (mk pl : List UInt8) : Received :=
  if op = 0x09 then ⟨0, unmask mk pl ++ [0], [0x8a, 0x00]⟩
  else if op = 0x0a then ⟨0, unmask mk pl ++ [0], []⟩
  else ⟨toInt pl.length, unmask mk pl ++ [0], []⟩

/-- `ws_recv` after the mask; `malloc` says for which sizes there is memory. -/
def recvPayload (malloc : ℕ → Bool) (maxlen : ℤ) (op : UInt8) (plen : ℕ) (mk : List UInt8) :
    Reader Received :=
  if maxlen ≤ 0 ∨ maxlen ≤ plen then
    if wsMaxOversizeDrain < plen then .done refused
    else drain (.done ⟨-2, [0], []⟩) plen
  else if malloc (plen + 1) = false then .done refused
  else if 0 < plen then .read plen (fun pl => .done (received op mk pl)) refused
  else .done (received op mk [])

/-- `ws_recv`. -/
def wsRecv (malloc : ℕ → Bool) (maxlen : ℤ) : Reader Received :=
  .read 2 (fun h =>
    let h0 := h.getD 0 0
    let h1 := h.getD 1 0
    let op := opcode h0
    if op = 0x08 then .done refused
    else if fin h0 = false ∨ rsv h0 then .done refused
    else if isText op = false ∧ isControl op = false then .done refused
    else
      readLength (shortLength h1) fun plen =>
        if isControl op ∧ 125 < plen then .done refused
        else if masked h1 = false then .done refused
        else
          .read 4 (fun mk => recvPayload malloc maxlen op plen mk) refused) refused

/-! ### A complete frame -/

/-- The octets of the length after the second octet. -/
def extLength (h1 : UInt8) : ℕ :=
  if shortLength h1 = 126 then 2 else if shortLength h1 = 127 then 8 else 0

/-- The length of the payload. -/
def payloadLength (h1 : UInt8) (ext : List UInt8) : ℕ :=
  if shortLength h1 = 126 ∨ shortLength h1 = 127 then wideLength ext else shortLength h1

/-- A complete frame: two octets, the rest of the length, the mask if there is one, the payload. -/
structure ClientFrame where
  h0 : UInt8
  h1 : UInt8
  ext : List UInt8
  mask : List UInt8
  payload : List UInt8
  ext_length : ext.length = extLength h1
  mask_length : mask.length = if masked h1 then 4 else 0
  payload_length : payload.length = payloadLength h1 ext

/-- The octets of a frame. -/
def ClientFrame.octets (f : ClientFrame) : List UInt8 :=
  f.h0 :: f.h1 :: (f.ext ++ (f.mask ++ f.payload))

/-- Neither decoder takes such a frame, whatever the size of the buffer. -/
def ClientFrame.Refused (f : ClientFrame) : Prop :=
  opcode f.h0 = 0x08 ∨ fin f.h0 = false ∨ rsv f.h0 = true ∨
    (isText (opcode f.h0) = false ∧ isControl (opcode f.h0) = false) ∨
    (isControl (opcode f.h0) = true ∧ 125 < f.payload.length) ∨ masked f.h1 = false

/-! ### Reading a frame -/

theorem wideLength_lt (e : List UInt8) : wideLength e < 2 ^ 64 := UInt64.toNat_lt _

theorem runOn_readLength {h1 : UInt8} {ext : List UInt8} (hext : ext.length = extLength h1)
    (next : ℕ → Reader Received) (t : List UInt8) :
    (readLength (shortLength h1) next).runOn (ext ++ t) = (next (payloadLength h1 ext)).runOn t := by
  unfold readLength payloadLength
  unfold extLength at hext
  by_cases h126 : shortLength h1 = 126
  · rw [if_pos h126] at hext
    rw [if_pos h126, if_pos (.inl h126), runOn_read hext]
  · by_cases h127 : shortLength h1 = 127
    · rw [if_neg h126, if_pos h127] at hext
      rw [if_neg h126, if_pos h127, if_pos (.inr h127), runOn_read hext]
    · rw [if_neg h126, if_neg h127] at hext
      rw [if_neg h126, if_neg h127, if_neg (by tauto), List.length_eq_zero_iff.mp hext, List.nil_append]

theorem extended_append {h1 : UInt8} {ext : List UInt8} (hext : ext.length = extLength h1)
    (t : List UInt8) :
    extended (shortLength h1) (ext ++ t) = some (payloadLength h1 ext, t) := by
  unfold extended payloadLength
  unfold extLength at hext
  have hlong : ∀ k, ext.length = k →
      ¬ (ext ++ t).length < k ∧ (ext ++ t).take k = ext ∧ (ext ++ t).drop k = t := by
    rintro k rfl
    exact ⟨by simp, List.take_left, List.drop_left⟩
  by_cases h126 : shortLength h1 = 126
  · rw [if_pos h126] at hext
    obtain ⟨hlen, htake, hdrop⟩ := hlong 2 hext
    rw [if_pos h126, if_neg hlen, htake, hdrop, if_pos (.inl h126)]
  · by_cases h127 : shortLength h1 = 127
    · rw [if_neg h126, if_pos h127] at hext
      obtain ⟨hlen, htake, hdrop⟩ := hlong 8 hext
      have hwide := wideLength_lt ext
      rw [if_neg h126, if_pos h127, if_neg hlen, htake, hdrop, if_neg (by omega), if_pos (.inr h127)]
    · rw [if_neg h126, if_neg h127] at hext
      rw [if_neg h126, if_neg h127, if_neg (by tauto), List.length_eq_zero_iff.mp hext, List.nil_append]

/-- The loop throws the payload away. -/
theorem runOn_drain (r : Received) {n : ℕ} {p : List UInt8} (hn : p.length = n) (t : List UInt8) :
    (drain (.done r) n).runOn (p ++ t) = (r, t) := by
  induction n using Nat.strong_induction_on generalizing p with
  | _ n ih =>
    rw [drain]
    by_cases hzero : n = 0
    · rw [if_pos hzero, List.length_eq_zero_iff.mp (hn.trans hzero)]
      rfl
    · rw [if_neg hzero]
      dsimp only
      set chunk := if 4096 < n then 4096 else n with hchunk
      have hle : chunk ≤ n := by
        rw [hchunk]
        split_ifs <;> omega
      have hpos : 0 < chunk := by
        rw [hchunk]
        split_ifs <;> omega
      have htake : (p.take chunk).length = chunk := List.length_take_of_le (by omega)
      have hdrop : (p.drop chunk).length = n - chunk := by rw [List.length_drop, hn]
      rw [← List.take_append_drop chunk p, List.append_assoc, runOn_read htake]
      exact ih (n - chunk) (by omega) hdrop

/-- When there is less than the payload, the loop ends with the connection. -/
theorem runOn_drain_of_lt (r : Received) {n : ℕ} {t : List UInt8} (h : t.length < n) :
    ((drain (.done r) n).runOn t).1 = refused := by
  induction n using Nat.strong_induction_on generalizing t with
  | _ n ih =>
    rw [drain, if_neg (by omega)]
    dsimp only
    set chunk := if 4096 < n then 4096 else n with hchunk
    have hpos : 0 < chunk := by
      rw [hchunk]
      split_ifs <;> omega
    by_cases hshort : t.length < chunk
    · rw [runOn_read_of_lt hshort]
    · have htake : (t.take chunk).length = chunk := List.length_take_of_le (by omega)
      rw [← List.take_append_drop chunk t, runOn_read htake]
      exact ih (n - chunk) (by omega) (by rw [List.length_drop]; omega)

/-! ### What the decoders do with a complete frame -/

/-- The decoder from memory refuses what both refuse. -/
theorem decode_refused {f : ClientFrame} (h : f.Refused) (maxlen : ℕ) :
    wsDecodeClientFrame (some f.octets) true maxlen = ⟨-1, [], (opcode f.h0).toNat⟩ := by
  unfold wsDecodeClientFrame ClientFrame.octets
  dsimp only
  rw [extended_append f.ext_length, ← f.payload_length]
  dsimp only
  unfold ClientFrame.Refused at h
  split_ifs <;> first | rfl | (exfalso; tauto)

/-- The decoder from memory, past the tests that do not depend on the buffer. -/
theorem decode_frame {f : ClientFrame} (hok : ¬ f.Refused) {maxlen : ℕ} (hpos : 0 < maxlen) :
    wsDecodeClientFrame (some f.octets) true maxlen =
      if maxlen ≤ f.payload.length then ⟨-2, [], (opcode f.h0).toNat⟩
      else
        ⟨if isControl (opcode f.h0) then 0 else toInt f.payload.length,
          unmask f.mask f.payload ++ [0], (opcode f.h0).toNat⟩ := by
  simp only [ClientFrame.Refused, not_or] at hok
  obtain ⟨hclose, hfin, hrsv, hop, hcontrol, hmasked⟩ := hok
  have hmask := f.mask_length
  rw [if_pos (by simpa using hmasked)] at hmask
  have htake : (f.mask ++ f.payload).take 4 = f.mask := by rw [← hmask, List.take_left]
  have hdrop : (f.mask ++ f.payload).drop 4 = f.payload := by rw [← hmask, List.drop_left]
  unfold wsDecodeClientFrame ClientFrame.octets
  dsimp only
  rw [if_neg hclose, if_neg (by tauto), if_neg hop, extended_append f.ext_length, ← f.payload_length]
  dsimp only
  rw [if_neg hcontrol, if_neg hmasked, if_neg (by simp [hmask]), htake, hdrop, List.take_length]
  by_cases hlarge : maxlen ≤ f.payload.length
  · rw [if_pos (by tauto), if_pos hlarge]
  · have hzero : maxlen ≠ 0 := by omega
    rw [if_neg (by tauto), if_neg hlarge, if_neg (lt_irrefl _)]

/-- A read of the first two octets of a frame. -/
theorem runOn_wsRecv (malloc : ℕ → Bool) (maxlen : ℤ) (h0 h1 : UInt8) (t : List UInt8) :
    (wsRecv malloc maxlen).runOn (h0 :: h1 :: t) =
      ((if opcode h0 = 0x08 then .done refused
        else if fin h0 = false ∨ rsv h0 then .done refused
        else if isText (opcode h0) = false ∧ isControl (opcode h0) = false then .done refused
        else
          readLength (shortLength h1) fun plen =>
            if isControl (opcode h0) ∧ 125 < plen then .done refused
            else if masked h1 = false then .done refused
            else .read 4 (fun mk => recvPayload malloc maxlen (opcode h0) plen mk) refused) :
        Reader Received).runOn t :=
  runOn_read (t := [h0, h1]) rfl _ _

theorem octets_append (f : ClientFrame) (t : List UInt8) :
    f.octets ++ t = f.h0 :: f.h1 :: (f.ext ++ (f.mask ++ (f.payload ++ t))) := by
  simp [ClientFrame.octets]

/-- The decoder from a connection refuses what both refuse. -/
theorem recv_refused {f : ClientFrame} (h : f.Refused) (malloc : ℕ → Bool) (maxlen : ℤ) (t : List UInt8) :
    ((wsRecv malloc maxlen).runOn (f.octets ++ t)).1 = refused := by
  rw [octets_append, runOn_wsRecv]
  unfold ClientFrame.Refused at h
  by_cases hclose : opcode f.h0 = 0x08
  · rw [if_pos hclose]
    rfl
  by_cases hfin : fin f.h0 = false ∨ rsv f.h0 = true
  · rw [if_neg hclose, if_pos hfin]
    rfl
  by_cases hop : isText (opcode f.h0) = false ∧ isControl (opcode f.h0) = false
  · rw [if_neg hclose, if_neg hfin, if_pos hop]
    rfl
  rw [if_neg hclose, if_neg hfin, if_neg hop, runOn_readLength f.ext_length, ← f.payload_length]
  split_ifs with hcontrol hmasked
  · rfl
  · rfl
  · exfalso
    tauto

/-- The decoder from a connection, past the tests that do not depend on the buffer. -/
theorem recv_frame {f : ClientFrame} (hok : ¬ f.Refused) (malloc : ℕ → Bool) (maxlen : ℤ) (t : List UInt8) :
    (wsRecv malloc maxlen).runOn (f.octets ++ t) =
      if maxlen ≤ 0 ∨ maxlen ≤ f.payload.length then
        if wsMaxOversizeDrain < f.payload.length then (refused, f.payload ++ t) else (⟨-2, [0], []⟩, t)
      else if malloc (f.payload.length + 1) = false then (refused, f.payload ++ t)
      else (received (opcode f.h0) f.mask f.payload, t) := by
  simp only [ClientFrame.Refused, not_or] at hok
  obtain ⟨hclose, hfin, hrsv, hop, hcontrol, hmasked⟩ := hok
  have hmask := f.mask_length
  rw [if_pos (by simpa using hmasked)] at hmask
  rw [octets_append, runOn_wsRecv, if_neg hclose, if_neg (by tauto), if_neg hop,
    runOn_readLength f.ext_length, ← f.payload_length, if_neg hcontrol, if_neg hmasked,
    runOn_read hmask, recvPayload]
  split_ifs with hlarge hdrain hmalloc hempty
  · rfl
  · exact runOn_drain _ rfl t
  · rfl
  · exact runOn_read rfl _ _
  · have hnil : f.payload = [] := List.length_eq_zero_iff.mp (by omega)
    rw [hnil]
    rfl

/-- The octets of the length, when there are enough. -/
theorem runOn_readLength_of_lt {h1 : UInt8} {t : List UInt8} (h : t.length < extLength h1)
    (next : ℕ → Reader Received) : ((readLength (shortLength h1) next).runOn t).1 = refused := by
  unfold extLength at h
  unfold readLength
  split_ifs at h ⊢
  · rw [runOn_read_of_lt h]
  · rw [runOn_read_of_lt h]
  · omega

theorem runOn_recvPayload_of_lt {plen : ℕ} {t : List UInt8} (h : t.length < plen) (malloc : ℕ → Bool)
    (maxlen : ℤ) (op : UInt8) (mk : List UInt8) :
    ((recvPayload malloc maxlen op plen mk).runOn t).1 = refused := by
  unfold recvPayload
  split_ifs
  · rfl
  · exact runOn_drain_of_lt _ h
  · rfl
  · rw [runOn_read_of_lt h]
  · omega

/-- **Less than a frame is refused.** -/
theorem recv_short {t : List UInt8} (h : ∀ (f : ClientFrame) (rest : List UInt8), t ≠ f.octets ++ rest)
    (malloc : ℕ → Bool) (maxlen : ℤ) : ((wsRecv malloc maxlen).runOn t).1 = refused := by
  match t with
  | [] => exact congrArg Prod.fst (runOn_read_of_lt (by simp) _ _)
  | [_] => exact congrArg Prod.fst (runOn_read_of_lt (by simp) _ _)
  | h0 :: h1 :: body =>
    rw [runOn_wsRecv]
    split
    · rfl
    split
    · rfl
    split
    · rfl
    by_cases hlen : body.length < extLength h1
    · exact runOn_readLength_of_lt hlen _
    -- the length is there, so the mask or the payload is not
    have hext : (body.take (extLength h1)).length = extLength h1 := List.length_take_of_le (by omega)
    rw [← List.take_append_drop (extLength h1) body, runOn_readLength hext]
    split
    · rfl
    by_cases hmasked : masked h1 = false
    · rw [if_pos hmasked]
      rfl
    rw [if_neg hmasked]
    set rest := body.drop (extLength h1)
    by_cases hmask : rest.length < 4
    · rw [runOn_read_of_lt hmask]
    have htake : (rest.take 4).length = 4 := List.length_take_of_le (by omega)
    rw [← List.take_append_drop 4 rest, runOn_read htake]
    refine runOn_recvPayload_of_lt (not_le.mp fun hpayload => ?_) malloc maxlen _ _
    let f : ClientFrame :=
      { h0, h1
        ext := body.take (extLength h1)
        mask := rest.take 4
        payload := (rest.drop 4).take (payloadLength h1 (body.take (extLength h1)))
        ext_length := hext
        mask_length := by rw [htake, if_pos (by simpa using hmasked)]
        payload_length := List.length_take_of_le hpayload }
    refine h f ((rest.drop 4).drop (payloadLength h1 (body.take (extLength h1)))) ?_
    rw [octets_append]
    simp only [f, List.take_append_drop, rest]

/-! ### How much is written -/

theorem length_unmask (mk p : List UInt8) : (unmask mk p).length = p.length := by
  simp [unmask]

theorem length_written_decode (frame : Option (List UInt8)) (out : Bool) (maxlen : ℕ) :
    (wsDecodeClientFrame frame out maxlen).written.length ≤ maxlen := by
  unfold wsDecodeClientFrame
  split
  · dsimp only
    split
    · simp
    split
    · simp
    split
    · simp
    split
    · simp
    · split_ifs
      · simp
      · simp
      · simp
      · simp
      · simp
      all_goals
        simp only [List.length_append, length_unmask, List.length_take, List.length_singleton]
        omega
  · simp

theorem length_written_recv {malloc : ℕ → Bool} {maxlen : ℤ} (hpos : 0 < maxlen) (t : List UInt8) :
    ((((wsRecv malloc maxlen).runOn t).1.written.length : ℕ) : ℤ) ≤ maxlen := by
  by_cases hframe : ∃ (f : ClientFrame) (rest : List UInt8), t = f.octets ++ rest
  · obtain ⟨f, rest, rfl⟩ := hframe
    by_cases hok : f.Refused
    · rw [recv_refused hok]
      simp [refused]
      omega
    · rw [recv_frame hok]
      split_ifs with hlarge
      · simp [refused]
        omega
      · simp
        omega
      · simp [refused]
        omega
      · have hlen : (received (opcode f.h0) f.mask f.payload).written.length = f.payload.length + 1 := by
          unfold received
          split_ifs <;> simp [length_unmask]
        rw [hlen]
        push_cast
        omega
  · rw [recv_short (fun f rest heq => hframe ⟨f, rest, heq⟩)]
    simp [refused]
    omega

/-! ### The two together -/

/-- What the two decoders have to do with each other on a complete frame. -/
structure Agree (f : ClientFrame) (d : Decoded) (r : Received) (left rest : List UInt8) : Prop where
  /-- A payload that is too large to be thrown away is the one difference. -/
  result : r.result = if d.result = -2 ∧ wsMaxOversizeDrain < f.payload.length then -1 else d.result
  written : 0 ≤ d.result → r.written = d.written
  /-- The next read starts at the end of the frame. -/
  left : 0 ≤ r.result ∨ r.result = -2 → left = rest

theorem result_received (op : UInt8) (mk pl : List UInt8) :
    (received op mk pl).result = if isControl op then 0 else toInt pl.length := by
  unfold received isControl
  split_ifs <;> simp_all

theorem written_received (op : UInt8) (mk pl : List UInt8) :
    (received op mk pl).written = unmask mk pl ++ [0] := by
  unfold received
  split_ifs <;> rfl

theorem toInt_of_lt {n : ℕ} (h : n < 2 ^ 31) : toInt n = n := Int32.toInt_ofNat_of_lt h

/-- The decoders on a complete frame that is the first on its connection. -/
theorem agree_frame {malloc : ℕ → Bool} {maxlen : Int32} (hpos : 0 < maxlen.toInt)
    (hmalloc : ∀ n : ℕ, (n : ℤ) ≤ maxlen.toInt → malloc n = true) (f : ClientFrame) (rest : List UInt8) :
    Agree f (wsDecodeClientFrame (some f.octets) true maxlen.toInt.toNat)
      ((wsRecv malloc maxlen.toInt).runOn (f.octets ++ rest)).1
      ((wsRecv malloc maxlen.toInt).runOn (f.octets ++ rest)).2 rest := by
  have hrefused : ¬ (0 ≤ refused.result ∨ refused.result = -2) := by decide
  have htoo : ¬ (0 : ℤ) ≤ -2 := by decide
  by_cases hok : f.Refused
  · rw [decode_refused hok]
    refine ⟨?_, fun h => absurd (.inl h) hrefused, fun h => ?_⟩
    · rw [recv_refused hok]
      rfl
    · rw [recv_refused hok] at h
      exact absurd h hrefused
  have hmax : ((maxlen.toInt.toNat : ℕ) : ℤ) = maxlen.toInt := Int.toNat_of_nonneg (by omega)
  have hlt := maxlen.toInt_lt
  rw [decode_frame hok (by omega), recv_frame hok]
  by_cases hlarge : maxlen.toInt.toNat ≤ f.payload.length
  · rw [if_pos hlarge, if_pos (.inr (by omega))]
    by_cases hdrain : wsMaxOversizeDrain < f.payload.length
    · rw [if_pos hdrain]
      exact ⟨by simp [hdrain, refused], fun h => absurd h htoo, fun h => absurd h hrefused⟩
    · rw [if_neg hdrain]
      exact ⟨by simp [hdrain], fun h => absurd h htoo, fun _ => rfl⟩
  · have hsmall : ¬ (maxlen.toInt ≤ 0 ∨ maxlen.toInt ≤ f.payload.length) := by omega
    have hroom : ¬ malloc (f.payload.length + 1) = false := by
      rw [hmalloc _ (by push_cast; omega)]
      decide
    have hint : toInt f.payload.length = f.payload.length := toInt_of_lt (by omega)
    rw [if_neg hlarge, if_neg hsmall, if_neg hroom]
    refine ⟨?_, fun _ => written_received _ _ _, fun _ => rfl⟩
    have hresult : ¬ ((if isControl (opcode f.h0) then 0 else toInt f.payload.length) = -2 ∧
        wsMaxOversizeDrain < f.payload.length) := by
      rintro ⟨hneg, -⟩
      split_ifs at hneg
      omega
    rw [if_neg hresult]
    exact result_received _ _ _

/-- **The decoders agree**: on a complete frame they return the same, and `ws_recv` stops at its end;
neither writes past the buffer; and `ws_recv` refuses anything less than a frame. -/
theorem decoders_agree {malloc : ℕ → Bool} {maxlen : Int32} (hpos : 0 < maxlen.toInt)
    (hmalloc : ∀ n : ℕ, (n : ℤ) ≤ maxlen.toInt → malloc n = true) :
    (∀ (f : ClientFrame) (rest : List UInt8) (s : Stream), s.octets = f.octets ++ rest →
      Agree f (wsDecodeClientFrame (some f.octets) true maxlen.toInt.toNat)
        ((wsRecv malloc maxlen.toInt).run s).1 ((wsRecv malloc maxlen.toInt).run s).2.octets rest) ∧
    (∀ (frame : Option (List UInt8)) (out : Bool),
      (wsDecodeClientFrame frame out maxlen.toInt.toNat).written.length ≤ maxlen.toInt.toNat) ∧
    (∀ s : Stream,
      ((((wsRecv malloc maxlen.toInt).run s).1.written.length : ℕ) : ℤ) ≤ maxlen.toInt) ∧
    ∀ s : Stream, (∀ (f : ClientFrame) (rest : List UInt8), s.octets ≠ f.octets ++ rest) →
      ((wsRecv malloc maxlen.toInt).run s).1.result = -1 := by
  refine ⟨fun f rest s hs => ?_, fun frame out => ?_, fun s => ?_, fun s hs => ?_⟩
  · obtain ⟨hresult, hleft⟩ := run_eq_runOn (wsRecv malloc maxlen.toInt) s
    rw [hresult, hleft, hs]
    exact agree_frame hpos hmalloc f rest
  · exact length_written_decode frame out _
  · rw [(run_eq_runOn _ s).1]
    exact length_written_recv hpos _
  · rw [(run_eq_runOn _ s).1, recv_short hs]
    rfl

/-- The frame of the text `hi`, with a mask. -/
def hiFrame : ClientFrame where
  h0 := 0x81
  h1 := 0x82
  ext := []
  mask := [0x74, 0x65, 0x73, 0x74]
  payload := [0x1c, 0x0c]
  ext_length := by decide
  mask_length := by decide
  payload_length := by decide

/-- It comes in two pieces, with the first octet of the next frame. -/
theorem decoders_agree_hi :
    0 < (8 : Int32).toInt ∧ (∀ n : ℕ, (n : ℤ) ≤ (8 : Int32).toInt → (fun _ => true) n = true) ∧
      Agree hiFrame ⟨2, [0x68, 0x69, 0], 1⟩
        ((wsRecv (fun _ => true) (8 : Int32).toInt).run
          [⟨[0x81, 0x82, 0x74], by decide⟩, ⟨[0x65, 0x73, 0x74, 0x1c, 0x0c, 0x81], by decide⟩]).1
        ((wsRecv (fun _ => true) (8 : Int32).toInt).run
          [⟨[0x81, 0x82, 0x74], by decide⟩, ⟨[0x65, 0x73, 0x74, 0x1c, 0x0c, 0x81], by decide⟩]).2.octets
        [0x81] :=
  ⟨by decide, fun _ _ => rfl,
    (@decoders_agree (fun _ => true) 8 (by decide) fun _ _ => rfl).1 hiFrame [0x81] _ rfl⟩

end SecChat.WsFrames
