import Postgread.Msg.Util.Encode
import Postgread.Msg.Wire.Takes

/-!
# Sequences of puts

`BytesTarget` and `BytesSource` agree. The checked puts spell out every sum, difference and index
that `put_bounded!` of `msg/util/encode.rs` computes; `Meets` says what a put does to a buffer.
`calls_agree` describes every sequence of puts: it writes the bytes of the puts that fit, keeps all
other bytes of the buffer, fails for ever after the first put that does not fit, and the takes of
the same widths read back what was put.
-/

namespace Postgread

namespace BytesTarget

/-! ## Checked puts -/

/-- A method of a target whose position may be outside of the buffer. `none` is a panic. -/
abbrev CheckedEncode := RawCursor UInt8 → Option (Except EncodeProblem Unit × RawCursor UInt8)

/-- The loop over so many bytes from the index `i` on. -/
def checkedAssign (bits pos : ℕ) (bytes : List UInt8) :
    ℕ → ℕ → List UInt8 → Option (List UInt8)
  | 0, _, slice => some slice
  | count + 1, i, slice => do
    let byte ← Checked.get bytes i
    let place ← Checked.add bits pos i
    let slice ← Checked.set slice place byte
    checkedAssign bits pos bytes count (i + 1) slice

/-- `put_bounded!` with its sums, its index and its subtraction, each of which may be refused. -/
def checkedPutBounded (bits : ℕ) (bytes : List UInt8) : CheckedEncode := fun target => do
  let stop ← Checked.add bits target.pos bytes.length
  if stop ≤ target.slice.length then
    let slice ← checkedAssign bits target.pos bytes bytes.length 0 target.slice
    pure (.ok ⟨⟩, ⟨slice, stop⟩)
  else
    let left ← Checked.sub target.slice.length target.pos
    let missing ← Checked.sub bytes.length left
    pure (.error (.outOfSpace missing), ⟨target.slice, target.slice.length⟩)

/-- `put_u8` so checked. -/
def checkedPutU8 (bits : ℕ) (value : UInt8) : CheckedEncode := checkedPutBounded bits [value]

/-- `put_u32` so checked. -/
def checkedPutU32 (bits : ℕ) (value : UInt32) : CheckedEncode :=
  checkedPutBounded bits (toBigEndian 4 value.toNat)

/-- The loop with checks assigns the bytes that are still to come. -/
theorem checkedAssign_eq {bits pos : ℕ} {slice : List UInt8} (done todo : List UInt8)
    (hroom : pos + (done ++ todo).length ≤ slice.length) (hbits : slice.length < 2 ^ bits) :
    checkedAssign bits pos (done ++ todo) todo.length done.length slice =
      some (assign slice (pos + done.length) todo) := by
  induction todo generalizing done slice with
  | nil => rfl
  | cons b todo ih =>
    have hlen : (done ++ b :: todo).length = done.length + 1 + todo.length := by simp; omega
    have hget := Checked.get_append_cons done todo b
    have hadd := @Checked.add_of_lt bits pos done.length (by omega)
    have hset := @Checked.set_of_lt _ slice (pos + done.length) (by omega) b
    have hrest := @ih (slice.set (pos + done.length) b) (done ++ [b])
      (by rw [List.append_assoc, List.length_set]; exact hroom) (by rwa [List.length_set])
    rw [List.append_assoc, List.length_append] at hrest
    rw [List.length_cons, checkedAssign, assign, hget, hadd]
    simp only [Option.bind_eq_bind, Option.bind_some, hset]
    exact hrest

/-- A put does not abort, whether it fits or not. -/
theorem checkedPutBounded_eq {bits : ℕ} {bytes : List UInt8} {target : BytesTarget}
    (h : target.slice.length + bytes.length < 2 ^ bits) :
    checkedPutBounded bits bytes target.raw =
      some ((putBounded bytes target).1, (putBounded bytes target).2.raw) := by
  have hpos := target.pos_le
  rw [checkedPutBounded, Cursor.pos_raw, Cursor.slice_raw, Checked.add_of_lt (by omega),
    Option.bind_eq_bind, Option.bind_some]
  by_cases hle : target.pos + bytes.length ≤ target.slice.length
  · have hassign := @checkedAssign_eq bits target.pos target.slice [] bytes hle (by omega)
    rw [if_pos hle, putBounded, dif_pos hle]
    simp only [List.nil_append, List.length_nil, Nat.add_zero] at hassign
    rw [hassign]
    rfl
  · rw [if_neg hle, putBounded, dif_neg hle, Checked.sub_of_le hpos, Option.bind_some,
      Checked.sub_of_le (by omega)]
    rfl

end BytesTarget

/-! ## Sequences -/

/-- A call of one of the puts. -/
inductive Put where
  | u8 (value : UInt8)
  | u32 (value : UInt32)
deriving DecidableEq, Repr

namespace Put

open Decoder BytesTarget

/-- The big-endian bytes of the value. -/
def bytes : Put → List UInt8
  | u8 value => [value]
  | u32 value => toBigEndian 4 value.toNat

/-- The call of the method. -/
def run : Put → Encode Unit
  | u8 value => putU8 value
  | u32 value => putU32 value

/-- The call of the checked method. -/
def check (bits : ℕ) : Put → CheckedEncode
  | u8 value => checkedPutU8 bits value
  | u32 value => checkedPutU32 bits value

/-- The take that reads the value back. -/
def take : Put → Take
  | u8 _ => .u8
  | u32 _ => .u32

/-- The value, as a take returns it. -/
def value : Put → Taken
  | u8 value => .u8 value
  | u32 value => .u32 value

/-- What a put does to a buffer: it writes its bytes at the position and changes no other byte, or
changes nothing and goes to the end. -/
inductive Meets (p : Put) :
    RawCursor UInt8 → Except EncodeProblem Unit → RawCursor UInt8 → Prop where
  | wrote {done old rest : List UInt8} (h : old.length = p.bytes.length) :
      Meets p ⟨done ++ old ++ rest, done.length⟩ (.ok ⟨⟩)
        ⟨done ++ p.bytes ++ rest, done.length + p.bytes.length⟩
  | full {done rest : List UInt8} (h : rest.length < p.bytes.length) :
      Meets p ⟨done ++ rest, done.length⟩ (.error (.outOfSpace (p.bytes.length - rest.length)))
        ⟨done ++ rest, (done ++ rest).length⟩

/-- The bytes of some puts, one after another. -/
def allBytes (ps : List Put) : List UInt8 := ps.flatMap bytes

/-- Both methods put the bytes of their number. -/
theorem run_eq (p : Put) : p.run = putBounded p.bytes := by
  cases p <;> rfl

/-- So do the checked ones. -/
theorem check_eq (bits : ℕ) (p : Put) : p.check bits = checkedPutBounded bits p.bytes := by
  cases p <;> rfl

/-- A put writes one to four bytes. -/
theorem length_bytes (p : Put) : 1 ≤ p.bytes.length ∧ p.bytes.length ≤ 4 := by
  cases p with
  | u8 value => exact ⟨le_rfl, Nat.le_add_left 1 3⟩
  | u32 value => simp [bytes]

/-- A put does to the slice what its bytes say. -/
theorem meets_run (p : Put) (target : BytesTarget) :
    p.Meets target.raw (p.run target).1 (p.run target).2.raw := by
  have hslice := target.take_pos_append_rest
  have hdone : (target.slice.take target.pos).length = target.pos :=
    List.length_take_of_le target.pos_le
  have hsum := target.pos_add_left
  rw [run_eq]
  by_cases hle : p.bytes.length ≤ target.left
  · have hold : (target.rest.take p.bytes.length).length = p.bytes.length :=
      List.length_take_of_le (by rwa [Cursor.length_rest])
    have hsplit : target.slice.take target.pos ++ target.rest.take p.bytes.length ++
        target.rest.drop p.bytes.length = target.slice := by
      rw [List.append_assoc, List.take_append_drop, hslice]
    have hmeets := @Meets.wrote p (target.slice.take target.pos) _
      (target.rest.drop p.bytes.length) hold
    have hassign := assign_append (target.slice.take target.pos) _
      (target.rest.drop p.bytes.length) p.bytes hold
    rw [hsplit, hdone] at hmeets hassign
    rw [putBounded, dif_pos (by omega)]
    simpa only [Cursor.raw, hassign] using hmeets
  · have hmeets := @Meets.full p (target.slice.take target.pos) target.rest
      (by rw [Cursor.length_rest]; omega)
    rw [hslice, hdone, Cursor.length_rest] at hmeets
    rw [putBounded, dif_neg (by omega)]
    exact hmeets

/-- A put fails exactly if less than its width is left. -/
theorem error_iff (p : Put) (target : BytesTarget) :
    (∃ e, (p.run target).1 = .error e) ↔ target.left < p.bytes.length := by
  have hsum := target.pos_add_left
  rw [run_eq, putBounded]
  split <;> simp <;> omega

/-! ### Whole sequences -/

/-- Where no room is left, every put fails and changes nothing. -/
theorem run_of_full {target : BytesTarget} (h : target.left = 0) (p : Put) :
    (∃ e, (p.run target).1 = .error e) ∧ (p.run target).2.slice = target.slice ∧
      (p.run target).2.left = 0 := by
  have hsum := target.pos_add_left
  have hwidth := p.length_bytes
  rw [run_eq, putBounded, dif_neg (by omega)]
  exact ⟨⟨_, rfl⟩, rfl, Nat.sub_self _⟩

/-- After a put that fails, no room is left. -/
theorem left_of_error {p : Put} {target : BytesTarget} {e : EncodeProblem}
    (h : (p.run target).1 = .error e) :
    (p.run target).2.slice = target.slice ∧ (p.run target).2.left = 0 := by
  rw [run_eq, putBounded] at h ⊢
  split at h
  · cases h
  · rename_i hlt
    rw [dif_neg hlt]
    exact ⟨rfl, Nat.sub_self _⟩

/-- Once the slice is full, every put is refused and changes nothing. -/
theorem calls_of_full {target : BytesTarget} (h : target.left = 0) (ps : List Put) :
    (∀ r ∈ (calls run ps target).1, ∃ e, r = .error e) ∧
      (calls run ps target).2.slice = target.slice ∧ (calls run ps target).2.left = 0 := by
  have hkeeps (p : Put) : p.run.Keeps fun t => t.slice = target.slice ∧ t.left = 0 := by
    rintro t ⟨hslice, hleft⟩
    obtain ⟨-, hslice', hleft'⟩ := run_of_full hleft p
    exact ⟨hslice'.trans hslice, hleft'⟩
  refine ⟨fun r hr => ?_, calls_keeps hkeeps ps ⟨rfl, h⟩⟩
  exact mem_calls_of_stuck hkeeps (fun p t ht => (run_of_full ht.2 p).1) ⟨rfl, h⟩ hr

/-- A put does not change the length of the slice. -/
theorem length_slice_run (p : Put) (target : BytesTarget) :
    (p.run target).2.slice.length = target.slice.length := by
  rw [run_eq, putBounded]
  split
  · exact length_assign _ _ _
  · rfl

/-- A sequence of puts writes the bytes of those that fit, which come first, and no other byte. -/
theorem exists_done (ps : List Put) (target : BytesTarget) :
    ∃ done errors, done <+: ps ∧
      (calls run ps target).1 = done.map (fun _ => .ok ⟨⟩) ++ errors ∧
      (∀ r ∈ errors, ∃ e, r = .error e) ∧
      (calls run ps target).2.slice = target.slice.take target.pos ++ allBytes done ++
        target.rest.drop (allBytes done).length ∧
      (errors = [] → (calls run ps target).2.pos = target.pos + (allBytes done).length) := by
  induction ps generalizing target with
  | nil =>
    refine ⟨[], [], List.nil_prefix, rfl, nofun, ?_, fun _ => rfl⟩
    simpa [allBytes] using target.take_pos_append_rest.symm
  | cons p ps ih =>
    by_cases hle : p.bytes.length ≤ target.left
    · have hsum := target.pos_add_left
      obtain ⟨target', hput, htake, hrest⟩ := putBounded_of_le target p.bytes (by omega)
      have hrun : p.run target = (.ok ⟨⟩, target') := by rw [run_eq, hput]
      have hpos : target'.pos = target.pos + p.bytes.length := by
        have hlen := congrArg List.length htake
        rwa [List.length_append, List.length_take_of_le target'.pos_le,
          List.length_take_of_le target.pos_le] at hlen
      obtain ⟨done, errors, hdone, hresults, herrors, hslice, hend⟩ := ih target'
      refine ⟨p :: done, errors, List.cons_prefix_cons.mpr ⟨rfl, hdone⟩, ?_, herrors, ?_,
        fun hnil => ?_⟩
      · rw [calls_cons, hrun, hresults]
        rfl
      · rw [calls_cons, hrun, hslice, htake, hrest, List.drop_drop]
        simp [allBytes]
      · rw [calls_cons, hrun, hend hnil, hpos]
        simp [allBytes, Nat.add_assoc]
    · -- neither this put nor any later one fits
      obtain ⟨e, he⟩ := (error_iff p target).mpr (Nat.lt_of_not_le hle)
      obtain ⟨hslice, hleft⟩ := left_of_error he
      obtain ⟨hfail, hslice', -⟩ := calls_of_full hleft ps
      refine ⟨[], (calls run (p :: ps) target).1, List.nil_prefix, rfl, fun r hr => ?_, ?_, ?_⟩
      · rcases List.mem_cons.mp hr with rfl | hr
        · exact ⟨e, he⟩
        · exact hfail r hr
      · rw [calls_cons, hslice', hslice]
        simpa [allBytes] using target.take_pos_append_rest.symm
      · rw [calls_cons]
        nofun

/-- What a put has written, the take of its width reads back. -/
theorem take_run_eq_ok (p : Put) {source : BytesSource} {rest : List UInt8}
    (h : source.rest = p.bytes ++ rest) :
    ∃ source', p.take.run source = (.ok p.value, source') ∧ source'.rest = rest := by
  have hinverts {α : Type} {d : Decode α} {encode : α → List UInt8} {a : α} (f : α → Taken)
      (hd : Inverts d (fun _ => True) encode) (hrest : source.rest = encode a ++ rest) :
      ∃ source', (f <$> d : Decode Taken) source = (.ok (f a), source') ∧ source'.rest = rest := by
    have hparse : parseAt d source = .ok (a, rest) := by
      rw [hd.parseAt_eq, hrest, hd.parse_encode trivial]
    obtain ⟨source', hd', hrest'⟩ := exists_of_parseAt_ok hparse
    exact ⟨source', Proc.map_eq_ok.mpr ⟨a, hd', rfl⟩, hrest'⟩
  cases p with
  | u8 value => exact hinverts .u8 takeU8_inverts h
  | u32 value => exact hinverts .u32 takeU32_inverts h

/-- The takes of the same widths read back what was put. -/
theorem calls_take (ps : List Put) {source : BytesSource} {rest : List UInt8}
    (h : source.rest = allBytes ps ++ rest) :
    (calls Take.run (ps.map take) source).1 = ps.map fun p => .ok p.value := by
  induction ps generalizing source with
  | nil => rfl
  | cons p ps ih =>
    rw [allBytes, List.flatMap_cons, List.append_assoc] at h
    obtain ⟨source', hrun, hrest⟩ := take_run_eq_ok p h
    rw [List.map_cons, calls_cons, hrun, List.map_cons, ih hrest]

end Put

/-- `BytesTarget` and `BytesSource` agree. In every sequence of puts into a buffer nothing aborts,
and each put writes its bytes at the position and nothing else, or fails exactly if less than its
width is left, changes nothing, and lets every later put fail. The puts that fit come first: after
them the buffer holds their bytes and then what it held before, `rest()` is this part of it, and
the takes of the same widths read back exactly what was put. -/
theorem BytesTarget.calls_agree (bits : ℕ) (hbits : 32 ≤ bits) (buffer : List UInt8)
    (hbuffer : buffer.length < 2 ^ (bits - 1)) (ps : List Put) (p : Put) :
    ∃ results target result target' done errors,
      checkedCalls (Put.check bits) ps ⟨buffer, 0⟩ = some (results, target) ∧
      p.check bits target = some (result, target') ∧
      (∃ t, calls Put.run ps (new buffer) = (results, t) ∧ t.raw = target ∧
        (p.run t).1 = result ∧ (p.run t).2.raw = target') ∧
      p.Meets target result target' ∧
      (∃ left, target.left = some left ∧
        ((∃ e, result = .error e) ↔ left < p.bytes.length)) ∧
      ((∃ e, result = .error e) → ∀ qs, ∃ results' target'',
        checkedCalls (Put.check bits) qs target' = some (results', target'') ∧
        ∀ r ∈ results', ∃ e, r = .error e) ∧
      (done <+: ps ∧ results = done.map (fun _ => .ok ⟨⟩) ++ errors ∧
        ∀ r ∈ errors, ∃ e, r = .error e) ∧
      target.slice = Put.allBytes done ++ buffer.drop (Put.allBytes done).length ∧
      (errors = [] → done = ps ∧ target.rest = some (buffer.drop (Put.allBytes ps).length)) ∧
      (calls Take.run (done.map Put.take)
        (BytesSource.new (target.slice.take (Put.allBytes done).length))).1 =
          done.map fun p => .ok p.value := by
  have hcheck (p : Put) (t : BytesTarget) (ht : t.slice.length = buffer.length) :
      p.check bits t.raw = some ((p.run t).1, (p.run t).2.raw) := by
    have hwidth := p.length_bytes
    have hfits := @Checked.add_lt_of_half bits buffer.length p.bytes.length hbits hbuffer (by omega)
    rw [p.check_eq, p.run_eq, checkedPutBounded_eq (by rwa [ht])]
  have hkeeps (p : Put) : p.run.Keeps fun t => t.slice.length = buffer.length :=
    fun t ht => (p.length_slice_run t).trans ht
  have hcalls (ps : List Put) (t : BytesTarget) (ht : t.slice.length = buffer.length) :
      checkedCalls (Put.check bits) ps t.raw =
        some ((calls Put.run ps t).1, (calls Put.run ps t).2.raw) :=
    checkedCalls_eq hcheck fun ps₁ _ _ _ => calls_keeps hkeeps ps₁ ht
  obtain ⟨done, errors, hdone, hresults, herrors, hslice, hend⟩ := Put.exists_done ps (new buffer)
  have hfirst := hcalls ps (new buffer) rfl
  have hlen := calls_keeps hkeeps ps (show (new buffer).slice.length = buffer.length from rfl)
  rw [Cursor.pos_new, List.take_zero, List.nil_append, Cursor.rest_new] at hslice
  rcases hrun : calls Put.run ps (new buffer) with ⟨results, t⟩
  rw [hrun] at hfirst hlen hslice hresults hend
  refine ⟨results, t.raw, (p.run t).1, (p.run t).2.raw, done, errors, hfirst, hcheck p t hlen,
    ⟨t, rfl, rfl, rfl, rfl⟩, p.meets_run t, ⟨t.left, t.left_raw, p.error_iff t⟩,
    fun ⟨e, he⟩ qs => ⟨_, _, hcalls qs _ ((p.length_slice_run t).trans hlen), ?_⟩,
    ⟨hdone, hresults, herrors⟩, hslice, fun hnil => ?_, ?_⟩
  · exact (Put.calls_of_full (Put.left_of_error he).2 qs).1
  · -- as many results as puts, so every put is done
    have hcount := @length_calls _ _ _ _ Put.run ps (new buffer)
    rw [hrun] at hcount
    rw [show results = _ from hresults, hnil, List.append_nil, List.length_map] at hcount
    obtain rfl := hdone.eq_of_length hcount
    refine ⟨rfl, ?_⟩
    rw [Cursor.rest_raw, Cursor.rest, hslice, hend hnil, Cursor.pos_new, Nat.zero_add,
      List.drop_left]
  · refine @Put.calls_take done _ [] ?_
    rw [Cursor.rest_new, List.append_nil, Cursor.slice_raw, hslice, List.take_left]

/-- A byte and a number fit into six bytes, another number does not. -/
theorem BytesTarget.calls_agree_six : ∃ results target done,
    checkedCalls (Put.check 32) [.u8 80, .u32 4, .u32 5] ⟨[0, 0, 0, 0, 0, 0], 0⟩ =
      some (results, target) ∧
    target.slice = Put.allBytes done ++ [0, 0, 0, 0, 0, 0].drop (Put.allBytes done).length := by
  obtain ⟨results, target, _, _, done, _, hcalls, -, -, -, -, -, -, hslice, -⟩ :=
    calls_agree 32 le_rfl [0, 0, 0, 0, 0, 0] (by decide) [.u8 80, .u32 4, .u32 5] (.u8 1)
  exact ⟨results, target, done, hcalls, hslice⟩

end Postgread
