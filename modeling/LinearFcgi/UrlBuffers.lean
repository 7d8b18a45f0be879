import LinearFcgi.Library.Scan
import LinearFcgi.System
import LinearFcgi.UrlCodec

/-! `url_encode` and `url_decode` with their pointers. What they read comes straight from
the network; they stay inside it and inside their buffers, and leave there what
`urlEncode` and `urlDecode` say. -/
namespace LinearFcgi

open TraceMachine Scan

/-- The body of the loop in `url_encode`. -/
def urlEncodeBody : Code UInt8 Unit := do
  -- `*pstr`, each time
  let ch ← peek 0
  if isalnum ch ∨ ch = 45 ∨ ch = 95 ∨ ch = 46 then emit ch
  else if ch = 32 then emit 43
  else
    emit 37
    emit (toHex (ch.toInt8 >>> 4).toUInt8)
    emit (toHex (ch &&& 15))

/-- The body of the loop in `url_decode`. -/
def urlDecodeBody : Code UInt8 Unit := do
  if (← peek 0) = 37 then
    -- `pstr[1] && pstr[2]`: where the first is the terminator, the second is not looked at
    if (← peek 1) ≠ 0 then
      if (← peek 2) ≠ 0 then
        emit (fromHex (← peek 1) <<< 4 ||| fromHex (← peek 2))
        skip 2
  else if (← peek 0) = 43 then emit 32
  else emit (← peek 0)

/-- `url_encode`, with `malloc(strlen(str) * 3 + 1)`. -/
def urlEncodeCall : CString UInt8 0 → Step Scan.State Bool (Access UInt8) :=
  call (fun strlen => (strlen * 3 + 1) % 2 ^ 64) urlEncodeBody

/-- `url_decode`, with `malloc(strlen(str) + 1)`. -/
def urlDecodeCall : CString UInt8 0 → Step Scan.State Bool (Access UInt8) :=
  call (fun strlen => (strlen + 1) % 2 ^ 64) urlDecodeBody

variable {str : CString UInt8 0} {s : Scan.State} {trace : List (Access UInt8)}

theorem urlEncode_translates (str : CString UInt8 0) : Translates urlEncode 3 urlEncodeBody str where
  empty := rfl
  each p before := by
    rw [str.drop_of_lt before, urlEncode]
    by_cases kept : isalnum (str.char p.pstr) ∨ str.char p.pstr = 45 ∨ str.char p.pstr = 95 ∨
        str.char p.pstr = 46
    · refine ⟨0, 0, [str.char p.pstr], ?_, by omega, by omega, by simp, by rw [if_pos kept]; rfl⟩
      constructor <;> simp [urlEncodeBody, kept]
    rw [if_neg kept]
    by_cases space : str.char p.pstr = 32
    · refine ⟨0, 0, [43], ?_, by omega, by omega, by simp, by rw [if_pos space]; rfl⟩
      have other : isalnum 32 = false := rfl
      constructor <;> simp [urlEncodeBody, other, space]
    · refine ⟨0, 0, [37, toHex ((str.char p.pstr).toInt8 >>> 4).toUInt8,
        toHex (str.char p.pstr &&& 15)], ?_, by omega, by omega, by simp,
        by rw [if_neg space]; rfl⟩
      constructor <;> simp [urlEncodeBody, kept, space]

theorem urlDecode_translates (str : CString UInt8 0) : Translates urlDecode 1 urlDecodeBody str where
  empty := rfl
  each p before := by
    rw [str.drop_of_lt before]
    by_cases percent : str.char p.pstr = 37
    · rcases str.next before with ⟨terminator, last⟩ | ⟨first, inside⟩
      · refine ⟨1, 0, [], ?_, by omega, by omega, by simp, ?_⟩
        · constructor <;> simp [urlDecodeBody, percent, terminator]
        · rw [percent, Nat.zero_add, last, str.drop_strlen]
          rfl
      rcases str.next inside with ⟨terminator, last⟩ | ⟨second, inside'⟩
      · refine ⟨2, 0, [], ?_, by omega, by omega, by simp, ?_⟩
        · constructor <;> simp [urlDecodeBody, percent, terminator, first]
        · rw [percent, Nat.zero_add, str.drop_of_lt inside, last, str.drop_strlen]
          simp [urlDecode]
      · refine ⟨2, 2, [fromHex (str.char (p.pstr + 1)) <<< 4 ||| fromHex (str.char (p.pstr + 2))],
          ?_, by omega, by omega, by simp, ?_⟩
        · constructor <;> simp [urlDecodeBody, percent, first, second]
        · rw [percent, str.drop_of_lt inside, str.drop_of_lt inside', urlDecode]
          rfl
    by_cases plus : str.char p.pstr = 43
    · refine ⟨0, 0, [32], ?_, by omega, by omega, by simp, ?_⟩
      · constructor <;> simp [urlDecodeBody, plus]
      · rw [plus]
        rfl
    · refine ⟨0, 0, [str.char p.pstr], ?_, by omega, by omega, by simp, ?_⟩
      · constructor <;> simp [urlDecodeBody, percent, plus]
      · rw [urlDecode]
        · rfl
        · exact fun _ _ _ sign => absurd sign percent
        · exact percent
        · exact plus

/-- The calls leave in their buffers what the codec says, byte by byte, and a terminator. -/
theorem stores_urlEncode (run : Reaches (urlEncodeCall str) .start s trace)
    (returned : s.pc = .returned) : stores trace = (urlEncode str.text ++ [0]).zipIdx :=
  stores_returned (urlEncode_translates str) run returned

theorem stores_urlDecode (run : Reaches (urlDecodeCall str) .start s trace)
    (returned : s.pc = .returned) : stores trace = (urlDecode str.text ++ [0]).zipIdx :=
  stores_returned (urlDecode_translates str) run returned

/-- `_write` decodes what the buffer holds then. -/
theorem payload_eq (h : Host) {data : Bytes} (text : str.text = cString data)
    (run : Reaches (urlDecodeCall str) .start s trace) (returned : s.pc = .returned) :
    payload h data = h.decode (cString ((stores trace).map Prod.fst)) := by
  rw [stores_urlDecode run returned, List.zipIdx_map_fst, text, cString_terminated]
  rfl

/-- `url_decode` and `url_encode` never read behind the terminator of their string. Nor do
they write behind the first `strlen + 1` and `3 * strlen + 1` bytes of their buffers, which
have that size unless it wraps. That holds after every round, and they return. -/
theorem url_codec_bounds (str : CString UInt8 0) :
    (∀ s trace, Reaches (urlDecodeCall str) .start s trace →
      InBounds str (str.strlen + 1) s trace ∧ s.pointers.pbuf ≤ s.pointers.pstr ∧
      (str.strlen + 1 < 2 ^ 64 → ∀ ch i, (ch, i) ∈ stores trace → i < s.size)) ∧
    (∀ succeeds, ∃ n ≤ str.strlen + 2, ∃ s trace,
      exec (urlDecodeCall str) .start (List.replicate n succeeds) = some (s, trace) ∧
        s.pc = if succeeds then .returned else .failed) ∧
    (∀ s trace, Reaches (urlEncodeCall str) .start s trace →
      InBounds str (3 * str.strlen + 1) s trace ∧ s.pointers.pbuf ≤ 3 * s.pointers.pstr ∧
      (3 * str.strlen + 1 < 2 ^ 64 → ∀ ch i, (ch, i) ∈ stores trace → i < s.size)) ∧
    ∀ succeeds, ∃ n ≤ str.strlen + 2, ∃ s trace,
      exec (urlEncodeCall str) .start (List.replicate n succeeds) = some (s, trace) ∧
        s.pc = if succeeds then .returned else .failed := by
  have decodes := urlDecode_translates str
  have encodes := urlEncode_translates str
  refine ⟨fun s trace run => ⟨?_, ?_, fun fits ch i stored => ?_⟩, returns decodes,
    fun s trace run => ⟨inBounds encodes run, pbuf_le encodes run, fun fits ch i stored => ?_⟩,
    returns encodes⟩
  · rw [← Nat.one_mul str.strlen]
    exact inBounds decodes run
  · rw [← Nat.one_mul s.pointers.pstr]
    exact pbuf_le decodes run
  · refine stored_lt_size decodes run ?_ stored
    rw [Nat.mod_eq_of_lt fits, Nat.one_mul]
  · refine stored_lt_size encodes run ?_ stored
    rw [Nat.mul_comm str.strlen, Nat.mod_eq_of_lt fits]

/-- An escape that breaks off, with no terminator behind the first. -/
def Sample.brokenOff : CString UInt8 0 := .ofText (ascii "+%4") (by decide) fun _ => 255

/-- `url_decode` looks at the terminator and drops the sign. -/
theorem url_codec_bounds_brokenOff : ∃ s trace,
    exec (urlDecodeCall Sample.brokenOff) .start (List.replicate 5 true) = some (s, trace) ∧
    s.pc = .returned ∧ 3 ∈ loads trace ∧ stores trace = [(32, 0), (52, 1), (0, 2)] ∧
    InBounds Sample.brokenOff 4 s trace := by
  have ran : exec (urlDecodeCall Sample.brokenOff) .start (List.replicate 5 true) =
      some (_, _) := rfl
  refine ⟨_, _, ran, rfl, by decide, rfl, ?_⟩
  exact ((url_codec_bounds Sample.brokenOff).1 _ _ (reaches_of_exec ran)).1

end LinearFcgi
