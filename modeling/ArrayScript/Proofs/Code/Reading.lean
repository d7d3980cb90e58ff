import Mathlib.Tactic
import ArrayScript.Code.Binary
import ArrayScript.Proofs.Code.Decoding

/-!
Decoders read what is written.

`Reads d input a` says that the decoder `d` takes exactly `input` from the front of any
bytes that begin with it and gives `a`; `Consumes d input a` says so for bytes that end
there. Both are built along a decoder, and so what is written is read part by part.

* `reads_unsigned`, `reads_signed`: numbers, if they have no more bits than the decoder
  allows.
* `reads_vector`, `reads_sized`, `consumes_untilEnd`: items with their number, content with
  its length, items up to the end.
* `reads_name`: texts.
* `reads_op`, `reads_mark`: instructions, if their indices have at most 32 bits.
* `nest_listing`: flat listings are nested again as they were.
-/

namespace ArrayScript

open Decoder

/-! ### Reading along a decoder -/

/-- A decoder takes the input from the front of any bytes that begin with it. -/
def Reads {α : Type} (d : Decoder α) (input : Bytes) (a : α) : Prop :=
  ∀ rest, d (input ++ rest) = some (a, rest)

/-- A decoder takes the whole input. -/
def Consumes {α : Type} (d : Decoder α) (input : Bytes) (a : α) : Prop :=
  d input = some (a, [])

section

variable {α β : Type} {d : Decoder α} {f : α → Decoder β} {input input' : Bytes} {a : α} {b : β}

/-- What is read in front of any rest is read with no rest. -/
lemma Reads.consumes (h : Reads d input a) : Consumes d input a := by
  have hnil := h []
  rwa [List.append_nil] at hnil

lemma bind_eq_of_eq_some {rest : Bytes} (h : d input = some (a, rest)) :
    (d >>= f) input = f a rest := by
  show (d input).bind (fun p => f p.1 p.2) = f a rest
  rw [h]
  rfl

lemma reads_pure : Reads (pure a) [] a :=
  fun _ => rfl

/-- Two readings, one after the other. -/
lemma Reads.bind (h : Reads d input a) (h' : Reads (f a) input' b) :
    Reads (d >>= f) (input ++ input') b := by
  intro rest
  rw [List.append_assoc, bind_eq_of_eq_some (h _), h']

/-- The second of two readings may take all that is left. -/
lemma Reads.bind_consumes (h : Reads d input a) (h' : Consumes (f a) input' b) :
    Consumes (d >>= f) (input ++ input') b := by
  rw [Consumes, bind_eq_of_eq_some (h _), h']

/-- What is made of something that was read. -/
lemma Reads.map (h : Reads d input a) (g : α → β) :
    Reads (d >>= fun a => pure (g a)) input (g a) := by
  have hbind := h.bind (f := fun a => pure (g a)) reads_pure
  rwa [List.append_nil] at hbind

lemma Consumes.map (h : Consumes d input a) (g : α → β) :
    Consumes (d >>= fun a => pure (g a)) input (g a) := by
  rw [Consumes, bind_eq_of_eq_some h]
  rfl

/-- A check that holds takes nothing. -/
lemma guard_bind {p : Prop} [Decidable p] (hp : p) (e : Unit → Decoder β) :
    ((guard p : Decoder Unit) >>= e) = e () := by
  rw [guard, if_pos hp]
  rfl

end

lemma reads_byte (b : UInt8) : Reads byte [b] b :=
  fun _ => rfl

/-- As many bytes are taken as were written. -/
lemma reads_bytes (input : Bytes) : Reads (bytes input.length) input input := by
  intro rest
  rw [bytes, if_pos (by simp), List.take_left, List.drop_left]

lemma reads_expect (expected : Bytes) : Reads (expect expected) expected () := by
  intro rest
  rw [expect, bind_eq_of_eq_some (reads_bytes expected rest), guard, if_pos rfl]
  rfl

/-! ### Numbers -/

/-- A number that is not too large is read back. -/
theorem reads_unsigned {n bits : Nat} (h : n < 2 ^ bits) :
    Reads (unsigned bits) (Binary.unsigned n) n := by
  induction n using Nat.strong_induction_on generalizing bits with
  | _ n ih =>
      intro rest
      rw [Binary.unsigned]
      split
      · rename_i hlast
        have hdigit : (UInt8.ofNat n).toNat = n := by
          rw [UInt8.toNat_ofNat']
          omega
        rw [List.singleton_append, unsigned, hdigit, if_pos hlast, if_pos h]
      · rename_i hmore
        have hdigit : (UInt8.ofNat (n % 128 + 128)).toNat = n % 128 + 128 := by
          rw [UInt8.toNat_ofNat']
          omega
        have hbits : 7 < bits := by
          by_contra hle
          have hpow : 2 ^ bits ≤ 2 ^ 7 := Nat.pow_le_pow_right (by decide) (by omega)
          omega
        have hsplit : 2 ^ bits = 128 * 2 ^ (bits - 7) := by
          rw [show bits = 7 + (bits - 7) by omega, Nat.pow_add]
          simp
        have hhigh : n / 128 < 2 ^ (bits - 7) := by omega
        have hread := ih (n / 128) (by omega) hhigh rest
        rw [List.cons_append, unsigned, hdigit, if_neg (by omega), if_pos hbits, hread]
        have hvalue : 128 * (n / 128) + (n % 128 + 128 - 128) = n := by omega
        show some (128 * (n / 128) + (n % 128 + 128 - 128), rest) = some (n, rest)
        rw [hvalue]

lemma reads_u32 {n : Nat} (h : n < 2 ^ 32) : Reads u32 (Binary.unsigned n) n :=
  reads_unsigned h

/-- An integer that is not too large is read back. -/
theorem reads_signed {n : Int} {bits : Nat} (hbits : 0 < bits) (hlow : -2 ^ (bits - 1) ≤ n)
    (hhigh : n < 2 ^ (bits - 1)) : Reads (signed bits) (Binary.signed n) n := by
  induction hsize : n.natAbs using Nat.strong_induction_on generalizing n bits with
  | _ size ih =>
      intro rest
      have hcast : ((2 ^ (bits - 1) : Nat) : Int) = 2 ^ (bits - 1) := by push_cast; rfl
      rw [Binary.signed]
      split
      · rename_i hlast
        have hdigit : (UInt8.ofNat (n % 128).toNat).toNat = (n % 128).toNat := by
          rw [UInt8.toNat_ofNat']
          omega
        rw [List.singleton_append, signed, hdigit]
        rcases hlast with ⟨hzero, hsmall⟩ | ⟨hminus, hlarge⟩
        · have hn : ((n % 128).toNat : Int) = n := by omega
          rw [if_pos hsmall, if_pos (by omega), hn]
        · have hn : ((n % 128).toNat : Int) - 128 = n := by omega
          rw [if_neg (by omega), if_pos (by omega), if_pos (by omega), hn]
      · rename_i hmore
        have hdigit : (UInt8.ofNat ((n % 128).toNat + 128)).toNat = (n % 128).toNat + 128 := by
          rw [UInt8.toNat_ofNat']
          omega
        -- a number whose sign cannot be told from its lowest digit has more than seven bits
        have hlarge : n < -64 ∨ 64 ≤ n := by omega
        have hbits' : 7 < bits := by
          by_contra hle
          have hpow : 2 ^ (bits - 1) ≤ 2 ^ 6 := Nat.pow_le_pow_right (by decide) (by omega)
          omega
        have hsplit : (2 : Nat) ^ (bits - 1) = 128 * 2 ^ (bits - 7 - 1) := by
          rw [show bits - 1 = 7 + (bits - 7 - 1) by omega, Nat.pow_add]
        have hcast' : ((2 ^ (bits - 7 - 1) : Nat) : Int) = 2 ^ (bits - 7 - 1) := by push_cast; rfl
        have hread : signed (bits - 7) (Binary.signed (n / 128) ++ rest) = some (n / 128, rest) :=
          ih (n / 128).natAbs (by omega) (by omega) (by omega) (by omega) rfl rest
        rw [List.cons_append, signed, hdigit, if_neg (by omega), if_neg (by omega),
          if_pos hbits', hread]
        have hvalue : 128 * (n / 128) + (((n % 128).toNat + 128 : Nat) - 128 : Int) = n := by omega
        show some (128 * (n / 128) + (((n % 128).toNat + 128 : Nat) - 128 : Int), rest) =
          some (n, rest)
        rw [hvalue]

/-! ### Items and texts -/

section

variable {α β : Type} {d : Decoder α} {content : Bytes} {a : α}

/-- Content that is read to its end is read by its length. -/
lemma reads_sized (h : Consumes d content a) (hsize : content.length < 2 ^ 32) :
    Reads (sized d) (Binary.sized content) a := by
  intro rest
  rw [sized, Binary.sized, List.append_assoc, bind_eq_of_eq_some (reads_u32 hsize _),
    bind_eq_of_eq_some (reads_bytes content rest), h]
  rfl

/-- Items that are read one by one are read by their number. -/
lemma reads_times {items : List β} {write : β → Bytes} {value : β → α}
    (h : ∀ x ∈ items, Reads d (write x) (value x)) :
    Reads (times d items.length) (items.map write).flatten (items.map value) := by
  induction items with
  | nil => exact reads_pure
  | cons x items ih =>
      rw [List.forall_mem_cons] at h
      exact h.1.bind ((ih h.2).map _)

/-- A list is read back from its length and its items. -/
lemma reads_vector {items : List β} {write : β → Bytes} {value : β → α}
    (h : ∀ x ∈ items, Reads d (write x) (value x)) (hsize : items.length < 2 ^ 32) :
    Reads (vector d) (Binary.vector (items.map write)) (items.map value) := by
  rw [Binary.vector, List.length_map]
  exact (reads_u32 hsize).bind (reads_times h)

/-- Items that take up bytes are read to the end of the input. -/
lemma consumes_untilEnd {inputs : List Bytes} {values : List α}
    (h : List.Forall₂ (fun input a => input ≠ [] ∧ Reads d input a) inputs values) :
    Consumes (untilEnd d) inputs.flatten values := by
  have key : ∀ fuel, inputs.flatten.length ≤ fuel →
      untilEnd.go d fuel inputs.flatten = some (values, []) := by
    induction h with
    | nil =>
        intro fuel _
        cases fuel <;> rfl
    | @cons input a inputs values hhead _ ih =>
        intro fuel hfuel
        obtain ⟨hne, hread⟩ := hhead
        have hlength : 0 < input.length := List.length_pos_of_ne_nil hne
        rw [List.flatten_cons, List.length_append] at hfuel
        rw [List.flatten_cons]
        cases fuel with
        | zero => omega
        | succ fuel =>
            have hrest := ih fuel (by omega)
            have hinput := hread inputs.flatten
            obtain ⟨b, tail, rfl⟩ := List.exists_cons_of_ne_nil hne
            rw [List.cons_append] at hinput ⊢
            rw [untilEnd.go, hinput]
            · show (untilEnd.go d fuel inputs.flatten).bind _ = _
              rw [hrest]
              rfl
            · simp
  exact key _ le_rfl

end

/-- The bytes of an array of bytes. -/
lemma toList_byteArray (b : ByteArray) : b.toList = b.data.toList := by
  have key : ∀ (count i : Nat) (before : List UInt8), b.size - i = count →
      ByteArray.toList.loop b i before = before.reverse ++ b.data.toList.drop i := by
    intro count
    induction count with
    | zero =>
        intro i before hcount
        have hend : b.data.toList.length ≤ i := by
          show b.size ≤ i
          omega
        rw [ByteArray.toList.loop, if_neg (by omega), List.drop_eq_nil_of_le hend, List.append_nil]
    | succ count ih =>
        intro i before hcount
        have hi : i < b.size := by omega
        have hget : b.get! i = b.data.toList.get ⟨i, hi⟩ := getElem!_pos b.data i hi
        rw [ByteArray.toList.loop, if_pos hi, ih (i + 1) _ (by omega),
          List.drop_eq_getElem_cons (show i < b.data.toList.length from hi), hget]
        simp
  rw [ByteArray.toList, key _ 0 [] rfl]
  rfl

/-- A text is read back. -/
lemma reads_name {s : String} (hsize : (Binary.name s).length < 2 ^ 32) :
    Reads name (Binary.name s) s := by
  rw [Binary.name, Binary.sized, List.length_append] at hsize
  refine reads_sized ?_ (by omega)
  have hbytes : (⟨s.toUTF8.toList.toArray⟩ : ByteArray) = s.toUTF8 := by
    rw [toList_byteArray]
  have htext : String.fromUTF8? s.toUTF8 = some s := by
    simp [String.fromUTF8?, String.toUTF8, s.isValidUTF8, String.fromUTF8]
  rw [Consumes, bind_eq_of_eq_some (d := remaining) rfl, hbytes, htext]
  rfl

/-! ### Instructions -/

lemma reads_wordType (t : WordType) : Reads wordType [Binary.wordType t] t := by
  cases t <;> exact fun _ => rfl

/-- Whether the indices of an operation have at most 32 bits. -/
def Op.InRange : Op → Prop
  | .localGet k | .localSet k | .localTee k | .call k | .br k | .brIf k => k < 2 ^ 32
  | _ => True

/-- A plain operation, after its first byte. -/
lemma reads_mark_op {b : UInt8} {input : Bytes} {o : Op}
    (hb : b ∉ [0x02, 0x03, 0x04, 0x05, 0x0b]) (h : Reads (Decoder.op b) input o) :
    Reads mark (b :: input) (.op o) := by
  intro rest
  have hbyte : byte (b :: input ++ rest) = some (b, input ++ rest) := rfl
  rw [mark, bind_eq_of_eq_some hbyte]
  split
  case h_6 => exact h.map Mark.op rest
  all_goals exact absurd (by decide) hb

/-- A memory access is read back with the alignment of its type and no offset. -/
lemma reads_access (t : WordType) (o : Op) :
    Reads (access t o) (Binary.memoryArgument t) o := by
  intro rest
  have halign : t.alignment < 2 ^ 32 := by cases t <;> decide
  rw [access, Binary.memoryArgument, List.append_assoc,
    bind_eq_of_eq_some (reads_u32 halign _), guard_bind rfl,
    bind_eq_of_eq_some (reads_u32 (by decide) _), guard_bind rfl]
  rfl

/-- Operations whose bytes are an opcode alone. -/
lemma reads_intOp (o : IntOp) : Reads mark [Binary.intOp o] (.op (.int o)) := by
  cases o <;> exact reads_mark_op (by decide) reads_pure

lemma reads_floatOp (o : FloatOp) : Reads mark [Binary.floatOp o] (.op (.float o)) := by
  cases o <;> exact reads_mark_op (by decide) reads_pure

lemma reads_i32Const (n : Int32) : Reads mark (Binary.op (.i32Const n)) (.op (.i32Const n)) := by
  have hlow : -2 ^ 31 ≤ n.toInt := n.le_toInt
  have hhigh : n.toInt < 2 ^ 31 := n.toInt_lt
  have hsigned : Reads (signed 32) (Binary.signed n.toInt) n.toInt :=
    reads_signed (by decide) hlow hhigh
  have hread := hsigned.map fun n => Op.i32Const (Int32.ofInt n)
  rw [Int32.ofInt_toInt] at hread
  exact reads_mark_op (by decide) hread

/-- A double is read back bit by bit, so a NaN too is the one that was written. -/
lemma reads_f64Const (x : Double) : Reads mark (Binary.op (.f64Const x)) (.op (.f64Const x)) := by
  have hbits : x.bits.toNat < 256 ^ 8 := x.bits.toNat_lt
  have hvalue : (⟨UInt64.ofNat (Bytes.littleEndian 8 x.bits.toNat).toNat⟩ : Double) = x := by
    rw [Bytes.toNat_littleEndian, Nat.pow_eq, Nat.mod_eq_of_lt hbits, UInt64.ofNat_toNat]
  have hread := (reads_bytes (Bytes.littleEndian 8 x.bits.toNat)).map
    fun found => Op.f64Const ⟨UInt64.ofNat found.toNat⟩
  rw [hvalue, Bytes.length_littleEndian] at hread
  exact reads_mark_op (by decide) hread

/-- Plain operations are read back. -/
theorem reads_op {o : Op} (ho : o.InRange) : Reads mark (Binary.op o) (.op o) := by
  cases o with
  | i32Const n => exact reads_i32Const n
  | f64Const x => exact reads_f64Const x
  | int o => exact reads_intOp o
  | float o => exact reads_floatOp o
  | i32Eqz => exact reads_mark_op (by decide) reads_pure
  | f64Neg => exact reads_mark_op (by decide) reads_pure
  | f64ConvertI32 => exact reads_mark_op (by decide) reads_pure
  | i32TruncSatF64 =>
      refine reads_mark_op (by decide) fun rest => ?_
      have htwo : Binary.unsigned 2 = [0x02] := by rw [Binary.unsigned, if_pos (by decide)]; rfl
      have hread := reads_u32 (n := 2) (by decide) rest
      rw [htwo] at hread
      show (u32 >>= _) ([0x02] ++ rest) = _
      rw [bind_eq_of_eq_some hread, guard_bind rfl]
      rfl
  | localGet slot => exact reads_mark_op (by decide) ((reads_u32 ho).map Op.localGet)
  | localSet slot => exact reads_mark_op (by decide) ((reads_u32 ho).map Op.localSet)
  | localTee slot => exact reads_mark_op (by decide) ((reads_u32 ho).map Op.localTee)
  | load t => cases t <;> exact reads_mark_op (by decide) (reads_access _ _)
  | store t => cases t <;> exact reads_mark_op (by decide) (reads_access _ _)
  | call index => exact reads_mark_op (by decide) ((reads_u32 ho).map Op.call)
  | select => exact reads_mark_op (by decide) reads_pure
  | drop => exact reads_mark_op (by decide) reads_pure
  | ret => exact reads_mark_op (by decide) reads_pure
  | br depth => exact reads_mark_op (by decide) ((reads_u32 ho).map Op.br)
  | brIf depth => exact reads_mark_op (by decide) ((reads_u32 ho).map Op.brIf)

/-- Instructions of a flat listing are read back. -/
lemma reads_mark {k : Mark} (hk : ∀ o, k = .op o → o.InRange) :
    Reads mark (Binary.mark k) k := by
  cases k with
  | op o => exact reads_op (hk o rfl)
  | block => exact fun _ => rfl
  | loop => exact fun _ => rfl
  | ifMark => exact fun _ => rfl
  | elseMark => exact fun _ => rfl
  | endMark => exact fun _ => rfl

lemma unsigned_ne_nil (n : Nat) : Binary.unsigned n ≠ [] := by
  rw [Binary.unsigned]
  split <;> simp

lemma mark_ne_nil (k : Mark) : Binary.mark k ≠ [] := by
  cases k with
  | op o =>
      cases o with
      | load t => cases t <;> simp [Binary.mark, Binary.op]
      | store t => cases t <;> simp [Binary.mark, Binary.op]
      | _ => simp [Binary.mark, Binary.op]
  | _ => simp [Binary.mark]

mutual

/-- Nesting the listing of an instruction adds the instruction. -/
theorem nest_instr : ∀ (i : Instr) (frames : List Frame) (done : Code) (rest : List Mark),
    nest frames done (i.listing ++ rest) = nest frames (done ++ [i]) rest
  | .plain o, frames, done, rest => by
      rw [Instr.listing, List.singleton_append, nest]
  | .block body, frames, done, rest => by
      rw [Instr.listing, List.cons_append, List.append_assoc, nest, nest_list body,
        List.nil_append, List.singleton_append, nest]
  | .loop body, frames, done, rest => by
      rw [Instr.listing, List.cons_append, List.append_assoc, nest, nest_list body,
        List.nil_append, List.singleton_append, nest]
  | .choice consequent none, frames, done, rest => by
      rw [Instr.listing, Instr.listingElse, List.nil_append, List.cons_append, List.append_assoc,
        nest, nest_list consequent, List.nil_append, List.singleton_append, nest]
  | .choice consequent (some alternate), frames, done, rest => by
      rw [Instr.listing, Instr.listingElse, List.cons_append, List.append_assoc, nest,
        nest_list consequent, List.nil_append, List.cons_append, List.cons_append, nest,
        List.append_assoc, nest_list alternate, List.nil_append, List.singleton_append, nest]

theorem nest_list : ∀ (code : Code) (frames : List Frame) (done : Code) (rest : List Mark),
    nest frames done (Instr.listingList code ++ rest) = nest frames (done ++ code) rest
  | [], frames, done, rest => by
      rw [Instr.listingList, List.nil_append, List.append_nil]
  | i :: code, frames, done, rest => by
      rw [Instr.listingList, List.append_assoc, nest_instr i, nest_list code, List.append_assoc,
        List.singleton_append]

end

/-- Flat listings are nested again as they were. -/
theorem nest_listing (code : Code) : nest [] [] code.listing = some code := by
  rw [Code.listing, nest_list, List.nil_append, nest]

end ArrayScript
