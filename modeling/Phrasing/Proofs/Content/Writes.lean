import Phrasing.Proofs.Expansion.Sameness

/-!
# Writes behind bytes

The bytes of a write tell where the write ends and what it is, up to the sign of zero, whatever
follows.  So the bytes of an encoding determine its writes, and an encoding begins with the bytes of
another one only if it begins with its writes.  Lengths are written as words, so all of this is
about encodings whose lengths fit into a word.
-/

namespace Phrasing

theorem utf8_inj {left right : String} : utf8 left = utf8 right ↔ left = right := by
  constructor
  · intro same
    exact String.toByteArray_inj.mp (ByteArray.ext (Array.toList_inj.mp same))
  · rintro rfl
    rfl

theorem wordBytes_append_inj {left right : UInt64} {rest other : List UInt8} :
    wordBytes left ++ rest = wordBytes right ++ other ↔ left = right ∧ rest = other := by
  constructor
  · intro same
    obtain ⟨words, rests⟩ := List.append_inj same (by simp)
    exact ⟨wordBytes_inj.mp words, rests⟩
  · rintro ⟨rfl, rfl⟩
    rfl

theorem eq_of_wordBytes_ofNat {left right : Nat} (left_fits : left < UInt64.size)
    (right_fits : right < UInt64.size) (same : UInt64.ofNat left = UInt64.ofNat right) :
    left = right := by
  have numbers := congrArg UInt64.toNat same
  rwa [UInt64.toNat_ofNat_of_lt' left_fits, UInt64.toNat_ofNat_of_lt' right_fits] at numbers

namespace Write

/-- The lengths that a write carries fit into a word. -/
def Fits : Write → Prop
  | .text value => value.utf8ByteSize < UInt64.size
  | .length count => count < UInt64.size
  | _ => True

instance : DecidablePred Fits
  | .text value => inferInstanceAs (Decidable (value.utf8ByteSize < UInt64.size))
  | .length count => inferInstanceAs (Decidable (count < UInt64.size))
  | .tag _ | .bool _ | .int _ | .word _ | .float _ | .hash _ => inferInstanceAs (Decidable True)

/-- A write with both zeros folded into one. -/
def canonical : Write → Write
  | .float value => .float (Number.unsigned value)
  | write => write

theorem bytes_canonical (write : Write) : write.canonical.bytes = write.bytes := by
  cases write with
  | float value => rw [canonical, bytes, bytes, Number.canonicalBits_unsigned]
  | _ => rfl

theorem bytes_ne_nil (write : Write) : write.bytes ≠ [] := by
  cases write
  all_goals simp [bytes]

/-- Whatever follows, bytes that begin with a write determine it and where it ends. -/
theorem eq_of_bytes_append {left right : Write} (left_fits : left.Fits) (right_fits : right.Fits)
    {rest other : List UInt8} (same : left.bytes ++ rest = right.bytes ++ other) :
    left.canonical = right.canonical ∧ rest = other := by
  cases left with
  | tag code =>
      cases right with
      | tag => simpa [bytes, canonical] using same
      | _ => simp [bytes] at same
  | bool value =>
      cases right with
      | bool =>
          simp only [bytes, List.cons_append, List.nil_append, List.cons.injEq, true_and] at same
          refine ⟨?_, same.2⟩
          have values := same.1
          split at values <;> split at values <;> simp_all
      | _ => simp [bytes] at same
  | int value =>
      cases right with
      | int =>
          simp only [bytes, List.cons_append, List.cons.injEq, true_and, wordBytes_append_inj]
            at same
          exact ⟨congrArg (fun word => Write.int (.ofUInt64 word)) same.1, same.2⟩
      | _ => simp [bytes] at same
  | word value =>
      cases right with
      | word => simpa [bytes, wordBytes_append_inj, canonical] using same
      | _ => simp [bytes] at same
  | float value =>
      cases right with
      | float =>
          simp only [bytes, List.cons_append, List.cons.injEq, true_and, wordBytes_append_inj]
            at same
          exact ⟨congrArg Write.float (Number.unsigned_eq_of_canonicalBits same.1), same.2⟩
      | _ => simp [bytes] at same
  | text value =>
      cases right with
      | text other_value =>
          simp only [bytes, List.cons_append, List.cons.injEq, true_and, List.append_assoc,
            wordBytes_append_inj] at same
          have sizes : value.utf8ByteSize = other_value.utf8ByteSize :=
            eq_of_wordBytes_ofNat left_fits right_fits same.1
          obtain ⟨texts, rests⟩ := List.append_inj same.2 sizes
          exact ⟨congrArg Write.text (utf8_inj.mp texts), rests⟩
      | _ => simp [bytes] at same
  | length count =>
      cases right with
      | length =>
          simp only [bytes, List.cons_append, List.cons.injEq, true_and, wordBytes_append_inj]
            at same
          exact ⟨congrArg Write.length (eq_of_wordBytes_ofNat left_fits right_fits same.1), same.2⟩
      | _ => simp [bytes] at same
  | hash value =>
      cases right with
      | hash =>
          simp only [bytes, List.cons_append, List.cons.injEq, true_and] at same
          obtain ⟨hashes, rests⟩ := List.append_inj same (by simp)
          exact ⟨congrArg Write.hash (ContentHash.bytes_inj.mp hashes), rests⟩
      | _ => simp [bytes] at same

end Write

namespace Encoding

/-- The lengths that the writes of an encoding carry fit into words. -/
def Fits (encoding : Encoding) : Prop :=
  ∀ write ∈ encoding, write.Fits

instance (encoding : Encoding) : Decidable encoding.Fits :=
  inferInstanceAs (Decidable (∀ write ∈ encoding, write.Fits))

/-- An encoding with both zeros folded into one. -/
def canonical (encoding : Encoding) : Encoding :=
  encoding.map Write.canonical

@[simp]
theorem canonical_nil : canonical [] = [] :=
  rfl

@[simp]
theorem canonical_cons (write : Write) (rest : Encoding) :
    canonical (write :: rest) = write.canonical :: canonical rest :=
  rfl

@[simp]
theorem canonical_append (left right : Encoding) :
    canonical (left ++ right) = canonical left ++ canonical right :=
  List.map_append

theorem bytes_canonical (encoding : Encoding) : encoding.canonical.bytes = encoding.bytes := by
  induction encoding with
  | nil => rfl
  | cons write rest induction =>
      rw [canonical_cons, bytes_cons, bytes_cons, Write.bytes_canonical, induction]

theorem bytes_eq_of_canonical {left right : Encoding} (same : left.canonical = right.canonical) :
    left.bytes = right.bytes := by
  rw [← bytes_canonical left, same, bytes_canonical]

theorem canonical_prefix_of_bytes {left right : Encoding} (left_fits : left.Fits)
    (right_fits : right.Fits) (ahead : left.bytes <+: right.bytes) :
    left.canonical <+: right.canonical := by
  induction left generalizing right with
  | nil => exact List.nil_prefix
  | cons write rest induction =>
      obtain ⟨late, same⟩ := ahead
      cases right with
      | nil =>
          rw [bytes_nil, bytes_cons, List.append_assoc, List.append_eq_nil_iff] at same
          exact absurd same.1 write.bytes_ne_nil
      | cons other others =>
          rw [bytes_cons, bytes_cons, List.append_assoc] at same
          obtain ⟨first, later⟩ := Write.eq_of_bytes_append (left_fits write List.mem_cons_self)
            (right_fits other List.mem_cons_self) same
          rw [canonical_cons, canonical_cons, first, List.prefix_cons_inj]
          exact induction (fun write member => left_fits write (List.mem_cons_of_mem _ member))
            (fun write member => right_fits write (List.mem_cons_of_mem _ member)) ⟨late, later⟩

/-- The bytes of an encoding determine its writes, up to the sign of zero. -/
theorem bytes_eq_iff {left right : Encoding} (left_fits : left.Fits) (right_fits : right.Fits) :
    left.bytes = right.bytes ↔ left.canonical = right.canonical := by
  constructor
  · intro same
    have ahead := canonical_prefix_of_bytes left_fits right_fits (same ▸ List.prefix_rfl)
    have behind := canonical_prefix_of_bytes right_fits left_fits (same ▸ List.prefix_rfl)
    exact ahead.eq_of_length (Nat.le_antisymm ahead.length_le behind.length_le)
  · exact bytes_eq_of_canonical

end Encoding

end Phrasing
