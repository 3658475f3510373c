import Mathlib.Order.Bounds.Basic
import Relink.Proofs.Source.Replacement
import Relink.Proofs.Text.Canonical

/-!
Edits that are given in any order. They are spliced as though all ranges were replaced at once,
unless two of them cover one octet, and then the first such octet is named, or a text in front of it
has no encoding.
-/

namespace Relink.Edit

variable {source : Bytes} {edits other : List Edit} {position place : Int}

structure Within (size : Nat) (edit : Edit) : Prop where
  inside : 0 ≤ edit.start
  proper : edit.start < edit.stop
  fits : edit.stop ≤ size

instance (size : Nat) (edit : Edit) : Decidable (edit.Within size) :=
  decidable_of_iff (0 ≤ edit.start ∧ edit.start < edit.stop ∧ edit.stop ≤ size)
    ⟨fun ⟨inside, proper, fits⟩ => ⟨inside, proper, fits⟩,
      fun ⟨inside, proper, fits⟩ => ⟨inside, proper, fits⟩⟩

def Covers (place : Int) (edit : Edit) : Prop := edit.start ≤ place ∧ place < edit.stop

instance (place : Int) : DecidablePred (Covers place) := fun edit =>
  inferInstanceAs (Decidable (edit.start ≤ place ∧ place < edit.stop))

def Overlaps (a b : Edit) : Prop := ∃ place, a.Covers place ∧ b.Covers place

theorem Overlaps.symm {a b : Edit} (h : a.Overlaps b) : b.Overlaps a := by
  obtain ⟨place, ha, hb⟩ := h
  exact ⟨place, hb, ha⟩

theorem overlaps_iff {a b : Edit} : a.Overlaps b ↔ max a.start b.start < min a.stop b.stop := by
  constructor
  · rintro ⟨place, ha, hb⟩
    unfold Covers at ha hb
    omega
  · intro h
    refine ⟨max a.start b.start, ?_⟩
    unfold Covers
    omega

instance (a b : Edit) : Decidable (a.Overlaps b) := decidable_of_iff _ overlaps_iff.symm

/-- Places that two edits of the list cover. -/
def contested (edits : List Edit) : Set Int := {place | 2 ≤ edits.countP (Covers place)}

@[simp] theorem mem_contested : place ∈ contested edits ↔ 2 ≤ edits.countP (Covers place) := Iff.rfl

theorem one_le_countP_iff :
    1 ≤ edits.countP (Covers place) ↔ ∃ edit ∈ edits, edit.Covers place := by
  simp only [Nat.one_le_iff_ne_zero, ← Nat.pos_iff_ne_zero, List.countP_pos_iff, decide_eq_true_eq]

theorem countP_cons_covers (edit : Edit) (edits : List Edit) (place : Int) :
    (edit :: edits).countP (Covers place) =
      edits.countP (Covers place) + if edit.Covers place then 1 else 0 := by
  rw [List.countP_cons]
  simp only [decide_eq_true_eq]

theorem nonempty_contested_iff_not_pairwise :
    (contested edits).Nonempty ↔ ¬edits.Pairwise fun a b => ¬a.Overlaps b := by
  induction edits with
  | nil => simp [contested, Set.Nonempty]
  | cons edit edits ih =>
    rw [List.pairwise_cons, not_and_or, ← ih]
    constructor
    · rintro ⟨place, hplace⟩
      simp only [mem_contested, countP_cons_covers] at hplace
      by_cases hedit : edit.Covers place
      · rw [if_pos hedit] at hplace
        have hrest : 1 ≤ edits.countP (Covers place) := by omega
        obtain ⟨other, hother, hcovers⟩ := one_le_countP_iff.1 hrest
        left
        intro hnone
        exact hnone other hother ⟨place, hedit, hcovers⟩
      · rw [if_neg hedit] at hplace
        exact .inr ⟨place, hplace⟩
    · rintro (hsome | ⟨place, hplace⟩)
      · simp only [not_forall, not_not] at hsome
        obtain ⟨other, hother, place, hedit, hcovers⟩ := hsome
        have hrest := one_le_countP_iff.2 ⟨other, hother, hcovers⟩
        refine ⟨place, ?_⟩
        simp only [mem_contested, countP_cons_covers, if_pos hedit]
        omega
      · refine ⟨place, ?_⟩
        simp only [mem_contested, countP_cons_covers] at hplace ⊢
        omega

theorem nonempty_contested_iff : (contested edits).Nonempty ↔
    ∃ i j : Fin edits.length, i ≠ j ∧ edits[i].Overlaps edits[j] := by
  rw [nonempty_contested_iff_not_pairwise, List.pairwise_iff_getElem]
  constructor
  · intro h
    simp only [not_forall, not_not] at h
    obtain ⟨i, j, hi, hj, hij, hoverlaps⟩ := h
    exact ⟨⟨i, hi⟩, ⟨j, hj⟩, by simpa using Nat.ne_of_lt hij, hoverlaps⟩
  · rintro ⟨⟨i, hi⟩, ⟨j, hj⟩, hne, hoverlaps⟩ hapart
    obtain hij | hji := Nat.lt_or_gt_of_ne (by simpa using hne : i ≠ j)
    · exact hapart i j hi hj hij hoverlaps
    · exact hapart j i hj hi hji hoverlaps.symm

theorem contested_perm (h : edits.Perm other) : contested edits = contested other := by
  ext place
  simp only [mem_contested, h.countP_eq]

def contestedFrom (position : Int) (edits : List Edit) : Set Int :=
  {place | (place < position ∧ 1 ≤ edits.countP (Covers place)) ∨ 2 ≤ edits.countP (Covers place)}

@[simp] theorem mem_contestedFrom : place ∈ contestedFrom position edits ↔
    (place < position ∧ 1 ≤ edits.countP (Covers place)) ∨
      2 ≤ edits.countP (Covers place) := Iff.rfl

theorem contestedFrom_cons {edit : Edit} (hposition : position ≤ edit.start)
    (hfirst : ∀ next ∈ edits, edit.start ≤ next.start) :
    contestedFrom position (edit :: edits) = contestedFrom edit.stop edits := by
  ext place
  have hbehind : 1 ≤ edits.countP (Covers place) → edit.start ≤ place := by
    intro hplace
    obtain ⟨next, hnext, hcovers⟩ := one_le_countP_iff.1 hplace
    exact Int.le_trans (hfirst next hnext) hcovers.1
  simp only [mem_contestedFrom, countP_cons_covers]
  by_cases hedit : edit.Covers place
  · rw [if_pos hedit]
    unfold Covers at hedit
    omega
  · rw [if_neg hedit]
    unfold Covers at hedit
    omega

theorem exists_covers_of_mem_contestedFrom (h : place ∈ contestedFrom position edits) :
    ∃ edit ∈ edits, edit.Covers place := by
  apply one_le_countP_iff.1
  obtain ⟨-, h⟩ | h := h <;> omega

/-- Splicing stops at the first place of `contested`, or at a text without encoding that comes
before it, and goes through where there is neither. -/
def Settles {α : Type} (contested : Set Int) (edits : List Edit) : Except Fault α → Prop
  | .ok _ | .error (.malformed _) => contested = ∅ ∧ ∀ edit ∈ edits, edit.text.IsEncodable
  | .error (.overlap start) =>
    IsLeast contested start ∧ ∀ edit ∈ edits, edit.start < start → edit.text.IsEncodable
  | .error (.unencodable unencodable) =>
    ∃ edit ∈ edits, edit.text.utf8? = .error unencodable ∧
      (∀ place ∈ contested, edit.start ≤ place) ∧
      ∀ other ∈ edits, other.start < edit.start → other.text.IsEncodable

namespace Settles

variable {α : Type} {contested : Set Int}

theorem cons {edit : Edit} {result : Except Fault Bytes} (h : Settles contested edits result)
    (hedit : edit.text.IsEncodable) (front : Bytes) :
    Settles contested (edit :: edits) (result.map (front ++ ·)) := by
  cases result with
  | ok octets => exact ⟨h.1, List.forall_mem_cons.2 ⟨hedit, h.2⟩⟩
  | error fault =>
    cases fault with
    | overlap start => exact ⟨h.1, List.forall_mem_cons.2 ⟨fun _ => hedit, h.2⟩⟩
    | unencodable unencodable =>
      obtain ⟨next, hnext, hstop, hleast, hbefore⟩ := h
      exact ⟨next, List.mem_cons_of_mem _ hnext, hstop, hleast,
        List.forall_mem_cons.2 ⟨fun _ => hedit, hbefore⟩⟩
    | malformed => exact ⟨h.1, List.forall_mem_cons.2 ⟨hedit, h.2⟩⟩

theorem perm {result : Except Fault α} (h : Settles contested edits result)
    (hperm : edits.Perm other) :
    Settles contested other result := by
  cases result with
  | ok octets => exact ⟨h.1, fun edit hedit => h.2 edit (hperm.mem_iff.2 hedit)⟩
  | error fault =>
    cases fault with
    | overlap start => exact ⟨h.1, fun edit hedit => h.2 edit (hperm.mem_iff.2 hedit)⟩
    | unencodable unencodable =>
      obtain ⟨edit, hedit, hstop, hleast, hbefore⟩ := h
      exact ⟨edit, hperm.mem_iff.1 hedit, hstop, hleast,
        fun other hother => hbefore other (hperm.mem_iff.2 hother)⟩
    | malformed => exact ⟨h.1, fun edit hedit => h.2 edit (hperm.mem_iff.2 hedit)⟩

end Settles

theorem splice_settles (sorted : edits.Pairwise (·.start ≤ ·.start))
    (proper : ∀ edit ∈ edits, edit.start < edit.stop) :
    Settles (contestedFrom position edits) edits (splice source position edits) := by
  induction edits generalizing position with
  | nil =>
    refine ⟨?_, by simp⟩
    ext place
    simp [contestedFrom]
  | cons edit edits ih =>
    obtain ⟨hfirst, hsorted⟩ := List.pairwise_cons.1 sorted
    obtain ⟨hproper, hrest⟩ := List.forall_mem_cons.1 proper
    have hstart : ∀ next ∈ edit :: edits, edit.start ≤ next.start :=
      List.forall_mem_cons.2 ⟨Int.le_refl _, hfirst⟩
    have hbefore : ∀ other ∈ edit :: edits, other.start < edit.start → other.text.IsEncodable :=
      fun other hother hlt => absurd (hstart other hother) (Int.not_le.2 hlt)
    have hleast : ∀ place ∈ contestedFrom position (edit :: edits), edit.start ≤ place := by
      intro place hplace
      obtain ⟨next, hnext, hcovers⟩ := exists_covers_of_mem_contestedFrom hplace
      exact Int.le_trans (hstart next hnext) hcovers.1
    by_cases hposition : edit.start < position
    · rw [splice, if_pos hposition]
      have hcovered : 1 ≤ (edit :: edits).countP (Covers edit.start) :=
        one_le_countP_iff.2 ⟨edit, List.mem_cons_self, Int.le_refl _, hproper⟩
      exact ⟨⟨.inl ⟨hposition, hcovered⟩, hleast⟩, hbefore⟩
    · rw [splice, if_neg hposition]
      cases hoctets : edit.text.utf8? with
      | error unencodable => exact ⟨edit, List.mem_cons_self, hoctets, hleast, hbefore⟩
      | ok octets =>
        rw [contestedFrom_cons (Int.not_lt.1 hposition) hfirst]
        exact (ih hsorted hrest).cons (Text.isEncodable_iff.2 ⟨octets, hoctets⟩) _

theorem perm_ordered (edits : List Edit) : (ordered edits).Perm edits := List.mergeSort_perm _ _

theorem pairwise_ordered (edits : List Edit) : (ordered edits).Pairwise (·.start ≤ ·.start) := by
  have hsorted : (ordered edits).Pairwise fun a b => decide (a.start ≤ b.start) = true :=
    List.pairwise_mergeSort (by simp; omega) (by simp; omega) edits
  refine hsorted.imp ?_
  intro a b hab
  exact of_decide_eq_true hab

theorem contestedFrom_zero (within : ∀ edit ∈ edits, 0 ≤ edit.start) :
    contestedFrom 0 edits = contested edits := by
  ext place
  have hinside : 1 ≤ edits.countP (Covers place) → 0 ≤ place := by
    intro hplace
    obtain ⟨edit, hedit, hcovers⟩ := one_le_countP_iff.1 hplace
    exact Int.le_trans (within edit hedit) hcovers.1
  simp only [mem_contestedFrom, mem_contested]
  omega

section Applying

variable (within : ∀ edit ∈ edits, edit.Within source.length)
include within

theorem splice_ordered_settles :
    Settles (contested edits) edits (splice source 0 (ordered edits)) := by
  have hwithin : ∀ edit ∈ ordered edits, edit.Within source.length := by
    intro edit hedit
    exact within edit ((perm_ordered edits).mem_iff.1 hedit)
  rw [← contested_perm (perm_ordered edits),
    ← contestedFrom_zero fun edit hedit => (hwithin edit hedit).inside]
  refine Settles.perm ?_ (perm_ordered edits)
  exact splice_settles (pairwise_ordered edits) fun edit hedit => (hwithin edit hedit).proper

theorem inOrder_ordered (h : contested edits = ∅) : InOrder source.length 0 (ordered edits) where
  inside edit hedit := by
    obtain ⟨hinside, hproper, hfits⟩ := within edit ((perm_ordered edits).mem_iff.1 hedit)
    exact ⟨hinside, Int.le_of_lt hproper, hfits⟩
  behind := by
    have hapart : (ordered edits).Pairwise fun a b => ¬a.Overlaps b := by
      rw [← not_not (a := List.Pairwise _ _), ← nonempty_contested_iff_not_pairwise,
        contested_perm (perm_ordered edits), h]
      exact Set.not_nonempty_empty
    refine ((pairwise_ordered edits).and hapart).imp_of_mem ?_
    rintro a b ha hb ⟨hle, hab⟩
    have hproper := (within b ((perm_ordered edits).mem_iff.1 hb)).proper
    by_contra hstop
    exact hab ⟨b.start, ⟨hle, Int.not_le.1 hstop⟩, Int.le_refl _, hproper⟩

end Applying

def octets (edit : Edit) : Bytes := edit.text.utf8?.toOption.getD []

/-- What comes to stand for an octet: the texts of the edits that start at its place, and the octet
itself unless it is covered. -/
def written (edits : List Edit) (place : Int) (octet : UInt8) : Bytes :=
  (edits.filter (·.start = place)).flatMap octets ++
    if edits.any (Covers place ·) then [] else [octet]

def replaceFrom (edits : List Edit) (place : Int) : Bytes → Bytes
  | [] => []
  | octet :: rest => written edits place octet ++ replaceFrom edits (place + 1) rest

def replaceAll (source : Bytes) (edits : List Edit) : Bytes := replaceFrom edits 0 source

theorem written_cons_behind {edit : Edit} (octet : UInt8) (proper : edit.start < edit.stop)
    (h : edit.stop ≤ place) : written (edit :: edits) place octet = written edits place octet := by
  have hstart : ¬edit.start = place := by omega
  have hcovers : ¬edit.Covers place := by
    unfold Covers
    omega
  simp [written, hstart, hcovers]

theorem written_ahead (octet : UInt8) (h : ∀ edit ∈ edits, place < edit.start) :
    written edits place octet = [octet] := by
  have hfilter : edits.filter (·.start = place) = [] := by
    rw [List.filter_eq_nil_iff]
    intro edit hedit hstart
    have := h edit hedit
    have := of_decide_eq_true hstart
    omega
  have hany : edits.any (Covers place ·) = false := by
    rw [List.any_eq_false]
    intro edit hedit hcovers
    exact Int.not_lt.2 (of_decide_eq_true hcovers).1 (h edit hedit)
  simp [written, hfilter, hany]

theorem written_covered {edit : Edit} (octet : UInt8) (hcovers : edit.Covers place)
    (hrest : ∀ next ∈ edits, edit.stop ≤ next.start) :
    written (edit :: edits) place octet = if place = edit.start then edit.octets else [] := by
  have hfilter : edits.filter (·.start = place) = [] := by
    rw [List.filter_eq_nil_iff]
    intro next hnext hstart
    have := hrest next hnext
    have := of_decide_eq_true hstart
    have := hcovers.2
    omega
  by_cases hstart : edit.start = place
  · simp [written, hcovers, hstart, hfilter]
  · simp [written, hcovers, hstart, hfilter, Ne.symm hstart]

theorem replaceFrom_append (edits : List Edit) (place : Int) (front rest : Bytes) :
    replaceFrom edits place (front ++ rest) =
      replaceFrom edits place front ++ replaceFrom edits (place + front.length) rest := by
  induction front generalizing place with
  | nil => simp [replaceFrom]
  | cons octet front ih =>
    have hplace : place + 1 + front.length = place + (octet :: front).length := by
      simp only [List.length_cons, Int.natCast_add, Int.natCast_one]
      omega
    rw [List.cons_append, replaceFrom, replaceFrom, ih, hplace, List.append_assoc]

theorem replaceFrom_ahead {octets : Bytes}
    (h : ∀ edit ∈ edits, place + octets.length ≤ edit.start) :
    replaceFrom edits place octets = octets := by
  induction octets generalizing place with
  | nil => rfl
  | cons octet octets ih =>
    simp only [List.length_cons, Int.natCast_add, Int.natCast_one] at h
    rw [replaceFrom, written_ahead, ih]
    · rfl
    · intro edit hedit
      have := h edit hedit
      omega
    · intro edit hedit
      have := h edit hedit
      omega

theorem replaceFrom_behind {edit : Edit} {octets : Bytes} (proper : edit.start < edit.stop)
    (h : edit.stop ≤ place) :
    replaceFrom (edit :: edits) place octets = replaceFrom edits place octets := by
  induction octets generalizing place with
  | nil => rfl
  | cons octet octets ih =>
    rw [replaceFrom, replaceFrom, written_cons_behind octet proper h, ih (by omega)]

theorem replaceFrom_covered {edit : Edit} {octets : Bytes} (hplace : edit.start ≤ place)
    (hstop : place + octets.length = edit.stop) (hrest : ∀ next ∈ edits, edit.stop ≤ next.start) :
    replaceFrom (edit :: edits) place octets =
      if place = edit.start ∧ octets ≠ [] then edit.octets else [] := by
  induction octets generalizing place with
  | nil => simp [replaceFrom]
  | cons octet octets ih =>
    simp only [List.length_cons, Int.natCast_add, Int.natCast_one] at hstop
    have hcovers : edit.Covers place := ⟨hplace, by omega⟩
    have hnext : ¬place + 1 = edit.start := by omega
    rw [replaceFrom, written_covered octet hcovers hrest, ih (by omega) (by omega)]
    simp [hnext]

theorem Replaces.le_start {offset : Nat} {result : Bytes}
    (h : Replaces offset source edits result) :
    ∀ edit ∈ edits, offset ≤ edit.start := by
  induction h with
  | done offset rest => simp
  | @edit offset start stop gap old rest result edits text hstart hstop _ ih =>
    refine List.forall_mem_cons.2 ⟨by simp; omega, ?_⟩
    intro edit hedit
    have := ih edit hedit
    omega

theorem Replaces.eq_replaceFrom {offset : Nat} {result : Bytes}
    (h : Replaces offset source edits result) (proper : ∀ edit ∈ edits, edit.start < edit.stop) :
    result = replaceFrom edits offset source := by
  induction h with
  | done offset rest => rw [replaceFrom_ahead (by simp)]
  | @edit offset start stop gap old rest result edits text hstart hstop hrest ih =>
    obtain ⟨hproper, hproperRest⟩ := List.forall_mem_cons.1 proper
    have hbehind := hrest.le_start
    have hplace : (offset : Int) + gap.length = start := by omega
    have hend : (offset : Int) + (gap ++ old).length = stop := by
      rw [List.length_append]
      omega
    have hold : old ≠ [] := by
      rintro rfl
      exact Int.ne_of_lt hproper (congrArg Nat.cast hstop.symm)
    have hgap : replaceFrom (⟨start, stop, text.map .char⟩ :: edits) offset gap = gap := by
      refine replaceFrom_ahead (List.forall_mem_cons.2 ⟨Int.le_of_eq hplace, ?_⟩)
      intro edit hedit
      have := hbehind edit hedit
      omega
    have htext : replaceFrom (⟨start, stop, text.map .char⟩ :: edits) start old = text.utf8 := by
      rw [replaceFrom_covered (Int.le_refl _) (by dsimp only; omega) hbehind, if_pos ⟨rfl, hold⟩,
        octets, Text.utf8?_map_char]
      rfl
    rw [replaceFrom_append, hend, replaceFrom_append, hplace, hgap, htext,
      replaceFrom_behind hproper (Int.le_refl _), ih hproperRest]

theorem filter_start_perm (h : edits.Perm other) (free : contested edits = ∅)
    (proper : ∀ edit ∈ edits, edit.start < edit.stop) :
    edits.filter (·.start = place) = other.filter (·.start = place) := by
  have hcount : (edits.filter (·.start = place)).length ≤ 1 := by
    have hfree : place ∉ contested edits := free ▸ Set.notMem_empty place
    have hmono : edits.countP (·.start = place) ≤ edits.countP (Covers place) := by
      apply List.countP_mono_left
      intro edit hedit hstart
      rw [decide_eq_true_eq] at hstart ⊢
      exact ⟨Int.le_of_eq hstart, hstart ▸ proper edit hedit⟩
    rw [mem_contested] at hfree
    rw [← List.countP_eq_length_filter]
    omega
  have hperm := h.filter (·.start = place)
  generalize edits.filter (·.start = place) = starting at hcount hperm
  match starting with
  | [] => exact hperm.nil_eq
  | [edit] => exact (List.perm_singleton.1 hperm.symm).symm
  | _ :: _ :: _ => simp at hcount

theorem replaceAll_perm (h : edits.Perm other) (free : contested edits = ∅)
    (proper : ∀ edit ∈ edits, edit.start < edit.stop) :
    replaceAll source edits = replaceAll source other := by
  have hwritten : written edits = written other := by
    funext place octet
    rw [written, written, filter_start_perm h free proper, h.any_eq]
  have hfrom : ∀ place, replaceFrom edits place source = replaceFrom other place source := by
    induction source with
    | nil => exact fun place => rfl
    | cons octet source ih =>
      intro place
      rw [replaceFrom, replaceFrom, hwritten, ih]
  exact hfrom 0

section Outcomes

variable (within : ∀ edit ∈ edits, edit.Within source.length)
include within

theorem applyAll_of_free (free : contested edits = ∅)
    (encodable : ∀ edit ∈ edits, edit.text.IsEncodable) :
    applyAll source edits = (Utf8.decode (replaceAll source edits)).mapError .malformed := by
  have proper : ∀ edit ∈ edits, edit.start < edit.stop :=
    fun edit hedit => (within edit hedit).proper
  obtain ⟨result, hresult, replaces⟩ | ⟨unencodable, ⟨before, edit, after, heq, -, hstop⟩, -⟩ :=
    splice_inOrder (Nat.zero_le _) (inOrder_ordered within free)
  · have hoctets := replaces.eq_replaceFrom fun edit hedit =>
      proper edit ((perm_ordered edits).mem_iff.1 hedit)
    have hsplice : splice source 0 (ordered edits) = .ok result := hresult
    rw [replaceAll_perm (perm_ordered edits).symm free proper, replaceAll, applyAll, hsplice,
      hoctets]
    rfl
  · have hedit : edit ∈ edits := (perm_ordered edits).mem_iff.1 (heq ▸ by simp)
    exact absurd (encodable edit hedit) (Text.not_isEncodable_iff.2 ⟨_, hstop⟩)

theorem applyAll_settles : Settles (contested edits) edits (applyAll source edits) := by
  have hsettles := splice_ordered_settles within
  rw [applyAll]
  cases hsplice : splice source 0 (ordered edits) with
  | error fault =>
    rw [hsplice] at hsettles
    cases fault <;> exact hsettles
  | ok octets =>
    rw [hsplice] at hsettles
    dsimp only
    cases Utf8.decode octets <;> exact hsettles

theorem mem_contested_start {edit next : Edit} (hedit : edit ∈ edits) (hnext : next ∈ edits)
    (hne : edit ≠ next) (hstart : edit.start = next.start) : edit.start ∈ contested edits := by
  have hself : edit.Covers edit.start := ⟨Int.le_refl _, (within edit hedit).proper⟩
  have hother : next.Covers edit.start :=
    ⟨Int.le_of_eq hstart.symm, hstart ▸ (within next hnext).proper⟩
  rw [contested_perm (List.perm_cons_erase hedit), mem_contested, countP_cons_covers, if_pos hself]
  have hrest := one_le_countP_iff.2 ⟨next, (List.mem_erase_of_ne hne.symm).2 hnext, hother⟩
  omega

theorem Settles.unique {a b : Except Fault Chars} (ha : Settles (contested edits) edits a)
    (hb : Settles (contested edits) edits b)
    (first : ∀ edit ∈ edits, IsLeast (contested edits) edit.start → edit.text.IsEncodable) :
    a = b ∨ contested edits = ∅ ∧ ∀ edit ∈ edits, edit.text.IsEncodable := by
  have apart {edit : Edit} {start : Int} {unencodable : Utf8.Unencodable} (hedit : edit ∈ edits)
      (hstop : edit.text.utf8? = .error unencodable)
      (hleast : ∀ place ∈ contested edits, edit.start ≤ place)
        (hstart : IsLeast (contested edits) start)
      (hbefore : ∀ edit ∈ edits, edit.start < start → edit.text.IsEncodable) : False := by
    refine Text.not_isEncodable_iff.2 ⟨_, hstop⟩ ?_
    obtain hlt | heq := Int.lt_or_eq_of_le (hleast start hstart.1)
    · exact hbefore edit hedit hlt
    · exact first edit hedit (heq ▸ hstart)
  match a, b with
  | .ok _, _ => exact .inr ha
  | .error (.malformed _), _ => exact .inr ha
  | _, .ok _ => exact .inr hb
  | _, .error (.malformed _) => exact .inr hb
  | .error (.overlap start), .error (.overlap start') =>
    obtain rfl := ha.1.unique hb.1
    exact .inl rfl
  | .error (.overlap start), .error (.unencodable _) =>
    obtain ⟨edit, hedit, hstop, hleast, -⟩ := hb
    exact (apart hedit hstop hleast ha.1 ha.2).elim
  | .error (.unencodable _), .error (.overlap start) =>
    obtain ⟨edit, hedit, hstop, hleast, -⟩ := ha
    exact (apart hedit hstop hleast hb.1 hb.2).elim
  | .error (.unencodable _), .error (.unencodable _) =>
    obtain ⟨edit, hedit, hstop, hleast, hbefore⟩ := ha
    obtain ⟨next, hnext, hstop', -, hbefore'⟩ := hb
    have hlost := Text.not_isEncodable_iff.2 ⟨_, hstop⟩
    have hlost' := Text.not_isEncodable_iff.2 ⟨_, hstop'⟩
    have hstart : edit.start = next.start := Int.le_antisymm
      (Int.not_lt.1 fun hlt => hlost' (hbefore next hnext hlt))
      (Int.not_lt.1 fun hlt => hlost (hbefore' edit hedit hlt))
    by_cases heq : edit = next
    · subst heq
      cases hstop.symm.trans hstop'
      exact .inl rfl
    · have hcontested := mem_contested_start within hedit hnext heq hstart
      exact absurd (first edit hedit ⟨hcontested, hleast⟩) hlost

theorem applyAll_perm (h : other.Perm edits)
    (first : ∀ edit ∈ edits, IsLeast (contested edits) edit.start → edit.text.IsEncodable) :
    applyAll source other = applyAll source edits := by
  have within' : ∀ edit ∈ other, edit.Within source.length := fun edit hedit =>
    within edit (h.mem_iff.1 hedit)
  have hother := (applyAll_settles within').perm h
  rw [contested_perm h] at hother
  obtain heq | ⟨free, encodable⟩ := hother.unique within (applyAll_settles within) first
  · exact heq
  · have free' : contested other = ∅ := (contested_perm h).trans free
    rw [applyAll_of_free within free encodable, applyAll_of_free within' free'
        fun edit hedit => encodable edit (h.mem_iff.1 hedit),
      replaceAll_perm h free' fun edit hedit => (within' edit hedit).proper]

theorem applyAll_eq_overlap_iff (encodable : ∀ edit ∈ edits, edit.text.IsEncodable) {start : Int} :
    applyAll source edits = .error (.overlap start) ↔ IsLeast (contested edits) start := by
  have hsettles := applyAll_settles within
  constructor
  · intro h
    rw [h] at hsettles
    exact hsettles.1
  · intro hleast
    have hoverlap : Settles (contested edits) edits
        (.error (.overlap start) : Except Fault Chars) :=
      ⟨hleast, fun edit hedit _ => encodable edit hedit⟩
    obtain heq | ⟨free, -⟩ :=
      hsettles.unique within hoverlap fun edit hedit _ => encodable edit hedit
    · exact heq
    · exact absurd (free ▸ hleast.1) (Set.notMem_empty start)

theorem exists_overlap_iff (encodable : ∀ edit ∈ edits, edit.text.IsEncodable) :
    (∃ start, applyAll source edits = .error (.overlap start)) ↔ (contested edits).Nonempty := by
  constructor
  · rintro ⟨start, hstart⟩
    exact ⟨start, ((applyAll_eq_overlap_iff within encodable).1 hstart).1⟩
  · rintro ⟨place, hplace⟩
    have hsettles := applyAll_settles within
    match h : applyAll source edits with
    | .error (.overlap start) => exact ⟨start, rfl⟩
    | .error (.unencodable _) =>
      obtain ⟨edit, hedit, hstop, -⟩ := h ▸ hsettles
      exact absurd (encodable edit hedit) (Text.not_isEncodable_iff.2 ⟨_, hstop⟩)
    | .ok _ | .error (.malformed _) =>
      rw [h] at hsettles
      exact absurd (hsettles.1 ▸ hplace) (Set.notMem_empty place)

end Outcomes

def digits : Bytes := Chars.utf8 "0123456789"

def scattered : List Edit := [⟨6, 8, "x"⟩, ⟨0, 2, "é"⟩, ⟨2, 3, []⟩]

def nested : List Edit := [⟨5, 6, "c"⟩, ⟨2, 9, "a"⟩, ⟨5, 7, "b"⟩]

theorem isLeast_contested_nested : IsLeast (contested nested) 5 := by
  refine ⟨mem_contested.2 (by decide), ?_⟩
  intro place hplace
  rw [mem_contested, nested, countP_cons_covers, countP_cons_covers, countP_cons_covers] at hplace
  by_contra hlt
  have hfirst : ¬Covers place ⟨5, 6, "c"⟩ := fun h => hlt h.1
  have hlast : ¬Covers place ⟨5, 7, "b"⟩ := fun h => hlt h.1
  rw [if_neg hfirst, if_neg hlast] at hplace
  simp only [List.countP_nil] at hplace
  split at hplace <;> omega

def halved : Edit := ⟨0, 1, [.ofNat 0xd800]⟩

def plain : Edit := ⟨0, 1, "x"⟩

end Relink.Edit
