import Mathlib.Tactic.Lift
import Relink.Proofs.Text.Encoding
import Relink.Source.Edit

namespace Relink.Edit

/-- Both octet strings, the source and the result, consist of the same gaps. Between the gaps stand
the ranges of the edits in the one and their texts in the other; `offset` is where the source begins
in a whole. -/
inductive Replaces : Nat → Bytes → List Edit → Bytes → Prop
  | done (offset : Nat) (rest : Bytes) : Replaces offset rest [] rest
  | edit {offset start stop : Nat} {gap old rest result : Bytes} {edits : List Edit}
      (text : Chars) :
      start = offset + gap.length → stop = start + old.length → Replaces stop rest edits result →
      Replaces offset (gap ++ old ++ rest) (⟨start, stop, text.map .char⟩ :: edits)
        (gap ++ text.utf8 ++ result)

structure InOrder (size : Nat) (position : Int) (edits : List Edit) : Prop where
  inside : ∀ edit ∈ edits, position ≤ edit.start ∧ edit.start ≤ edit.stop ∧ edit.stop ≤ size
  behind : edits.Pairwise (·.stop ≤ ·.start)

theorem InOrder.tail {size : Nat} {position : Int} {edit : Edit} {edits : List Edit}
    (h : InOrder size position (edit :: edits)) : InOrder size edit.stop edits where
  inside next hnext :=
    ⟨List.rel_of_pairwise_cons h.behind hnext, (h.inside next (List.mem_cons_of_mem _ hnext)).2⟩
  behind := h.behind.of_cons

theorem slice_natCast {source : Bytes} {start stop : Nat} (hstart : start ≤ source.length)
    (hstop : stop ≤ source.length) :
    slice source start stop = (source.drop start).take (stop - start) := by
  have clamp_natCast {n : Nat} (h : n ≤ source.length) : clamp source.length n = n := by
    rw [clamp, if_neg (by omega), Int.toNat_natCast]
    exact Nat.min_eq_left h
  rw [slice, clamp_natCast hstart, clamp_natCast hstop]

theorem slice_to_end {source : Bytes} {start : Nat} (hstart : start ≤ source.length) :
    slice source start source.length = source.drop start := by
  rw [slice_natCast hstart (Nat.le_refl _), List.take_of_length_le (by simp)]

theorem drop_eq_append {source : Bytes} {a b c : Nat} (hab : a ≤ b) (hbc : b ≤ c) :
    source.drop a =
      (source.drop a).take (b - a) ++ (source.drop b).take (c - b) ++ source.drop c := by
  have hb : source.drop b = (source.drop a).drop (b - a) := by
    rw [List.drop_drop, Nat.add_sub_cancel' hab]
  have hc : source.drop c = (source.drop b).drop (c - b) := by
    rw [List.drop_drop, Nat.add_sub_cancel' hbc]
  rw [hc, List.append_assoc, List.take_append_drop, hb, List.take_append_drop]

/-- The first text that has no encoding, and where its encoding stops. -/
def FirstUnencodable (edits : List Edit) (unencodable : Utf8.Unencodable) : Prop :=
  ∃ before edit after, edits = before ++ edit :: after ∧
    (∀ other ∈ before, other.text.IsEncodable) ∧ edit.text.utf8? = .error unencodable

theorem FirstUnencodable.cons {edit : Edit} {edits : List Edit} {unencodable : Utf8.Unencodable}
    (hedit : edit.text.IsEncodable) (h : FirstUnencodable edits unencodable) :
    FirstUnencodable (edit :: edits) unencodable := by
  obtain ⟨before, next, after, rfl, hbefore, hnext⟩ := h
  exact ⟨edit :: before, next, after, rfl, List.forall_mem_cons.2 ⟨hedit, hbefore⟩, hnext⟩

theorem FirstUnencodable.exists_edit {edits : List Edit} {unencodable : Utf8.Unencodable}
    (h : FirstUnencodable edits unencodable) : ∃ edit ∈ edits, ¬edit.text.IsEncodable := by
  obtain ⟨before, edit, after, rfl, -, hedit⟩ := h
  exact ⟨edit, by simp, Text.not_isEncodable_iff.2 ⟨_, hedit⟩⟩

theorem splice_inOrder {source : Bytes} {edits : List Edit} {position : Nat}
    (hposition : position ≤ source.length) (h : InOrder source.length position edits) :
    (∃ result, splice source position edits = .ok result ∧
      Replaces position (source.drop position) edits result) ∨
    ∃ unencodable, FirstUnencodable edits unencodable ∧
      splice source position edits = .error (.unencodable unencodable) := by
  induction edits generalizing position with
  | nil =>
    refine .inl ⟨source.drop position, ?_, .done _ _⟩
    rw [splice, slice_to_end hposition]
  | cons edit edits ih =>
    obtain ⟨start, stop, text⟩ := edit
    obtain ⟨hstart, hstop, hsize⟩ := h.inside _ List.mem_cons_self
    have htail := h.tail
    dsimp only at hstart hstop hsize htail
    -- offsets in order are never negative, so a slice is what stands between them
    lift start to Nat using by omega
    lift stop to Nat using by omega
    have hps : position ≤ start := by omega
    have hss : start ≤ stop := by omega
    have hsl : stop ≤ source.length := by omega
    rw [splice, if_neg (by simpa using hps)]
    cases hoctets : text.utf8? with
    | error unencodable => exact .inr ⟨unencodable, ⟨[], _, edits, rfl, by simp, hoctets⟩, rfl⟩
    | ok octets =>
    obtain ⟨chars, rfl, rfl⟩ := Text.utf8?_eq_ok_iff.1 hoctets
    obtain ⟨result, hresult, hreplaces⟩ | ⟨unencodable, hfirst, hresult⟩ := ih hsl htail
    · have cut : source.drop position = _ := drop_eq_append hps hss
      have hgap : ((source.drop position).take (start - position)).length = start - position := by
        rw [List.length_take, List.length_drop]
        omega
      have hold : ((source.drop start).take (stop - start)).length = stop - start := by
        rw [List.length_take, List.length_drop]
        omega
      rw [hresult, slice_natCast hposition (by omega)]
      generalize (source.drop position).take (start - position) = gap at cut hgap ⊢
      refine .inl ⟨gap ++ chars.utf8 ++ result, rfl, ?_⟩
      rw [cut]
      exact .edit chars (by omega) (by omega) hreplaces
    · refine .inr ⟨unencodable, hfirst.cons (Text.isEncodable_map_char chars), ?_⟩
      rw [hresult]
      rfl

theorem Replaces.isEncodable {offset : Nat} {source result : Bytes} {edits : List Edit}
    (h : Replaces offset source edits result) : ∀ edit ∈ edits, edit.text.IsEncodable := by
  induction h with
  | done offset rest => simp
  | edit text _ _ _ ih => exact List.forall_mem_cons.2 ⟨Text.isEncodable_map_char text, ih⟩

def Aligned (source : Bytes) (edit : Edit) : Prop :=
  Utf8.IsBoundary source edit.start.toNat ∧ Utf8.IsBoundary source edit.stop.toNat

theorem Replaces.exists_text {whole source result : Bytes} {offset : Nat} {edits : List Edit}
    (h : Replaces offset source edits result) (hsource : whole.drop offset = source)
    (hoffset : Utf8.IsBoundary whole offset) (aligned : ∀ edit ∈ edits, edit.Aligned whole) :
    ∃ text : Chars, result = text.utf8 := by
  induction h with
  | done offset rest =>
    subst hsource
    exact hoffset.drop
  | @edit offset start stop gap old rest result edits text hstart hstop _ ih =>
    obtain ⟨⟨alignedStart, alignedStop⟩, alignedRest⟩ := List.forall_mem_cons.1 aligned
    have hgap : (whole.drop offset).take (start - offset) = gap := by
      rw [hsource, hstart, Nat.add_sub_cancel_left, List.append_assoc, List.take_left]
    have hrest : whole.drop stop = rest := by
      have : stop = offset + (gap ++ old).length := by
        rw [List.length_append]
        omega
      rw [this, ← List.drop_drop, hsource, List.drop_left]
    obtain ⟨before, hbefore⟩ := hoffset.slice alignedStart (by simp; omega)
    obtain ⟨after, hafter⟩ := ih hrest alignedStop alignedRest
    refine ⟨before ++ text ++ after, ?_⟩
    rw [hafter, ← hgap, Utf8.utf8_append, Utf8.utf8_append, ← hbefore]
    rfl

theorem InOrder.ordered_eq {size : Nat} {position : Int} {edits : List Edit}
    (h : InOrder size position edits) : ordered edits = edits := by
  apply List.mergeSort_of_pairwise
  refine h.behind.imp_of_mem ?_
  intro a b ha _ hab
  have := (h.inside a ha).2.1
  simp
  omega

theorem InOrder.applyAll_cases {text : Chars} {edits : List Edit}
    (h : InOrder text.utf8.length 0 edits) (aligned : ∀ edit ∈ edits, edit.Aligned text.utf8) :
    (∃ result : Chars, applyAll text.utf8 edits = .ok result ∧
      Replaces 0 text.utf8 edits result.utf8) ∨
    ∃ unencodable, FirstUnencodable edits unencodable ∧
      applyAll text.utf8 edits = .error (.unencodable unencodable) := by
  obtain ⟨octets, hoctets, replaces⟩ | ⟨unencodable, hfirst, hstop⟩ :=
    splice_inOrder (Nat.zero_le _) h
  · obtain ⟨result, rfl⟩ := replaces.exists_text rfl (.zero text) aligned
    have hsplice : splice text.utf8 0 edits = .ok result.utf8 := hoctets
    refine .inl ⟨result, ?_, replaces⟩
    rw [applyAll, h.ordered_eq, hsplice]
    simp [Except.mapError]
  · have hsplice : splice text.utf8 0 edits = .error (.unencodable unencodable) := hstop
    exact .inr ⟨unencodable, hfirst, by rw [applyAll, h.ordered_eq, hsplice]⟩

end Relink.Edit
