import Relink.Proofs.Storage.Making

namespace Relink.Disk

open Relink.Path (Parts)

variable {disk made stored stored' other : Disk} {names place place' : List Text}

structure Output where
  path : Parts
  proper : path.Proper
  contents : Bytes

def storeFile (disk : Disk) (output : Output) : Except Fault Disk := do
  let made ← disk.ensureDirectory output.path.parent
  made.writeBytes output.path.toText output.contents

def storeAll (disk : Disk) (outputs : List Output) : Except Fault Disk :=
  outputs.foldlM storeFile disk

theorem storeAll_concat (outputs : List Output) (output : Output) :
    disk.storeAll (outputs ++ [output]) = disk.storeAll outputs >>= (·.storeFile output) := by
  rw [storeAll, List.foldlM_append]
  congr 1
  funext disk
  exact bind_pure _

structure Stores (disk : Disk) (output : Output) (stored : Disk) (place : List Text) : Prop where
  exists_made : ∃ made, disk.ensureDirectory output.path.parent = .ok made ∧
    made.Finds output.path.toText place ∧ made.lookup place ≠ some .directory ∧
    stored = made.put place (.file output.contents)
  stat : stored.stat output.path.toText = some .file

/-- Two files go to different places, and neither place is that of a directory above the other. -/
def Apart (disk : Disk) (a b : Output) : Prop :=
  ∀ stored, disk.storeFile a = .ok stored → ∀ stored', disk.storeFile b = .ok stored' →
    ∀ found, stored.locate a.path.toText = .ok found →
      ∀ found', stored'.locate b.path.toText = .ok found' →
        found.1 ≠ found'.1 ∧ stored'.lookup found.1 ≠ some .directory ∧
          stored.lookup found'.1 ≠ some .directory

instance (disk : Disk) (a b : Output) : Decidable (disk.Apart a b) := by
  delta Apart
  infer_instance

variable {output a b : Output} {outputs : List Output}

theorem storeFile_eq_ok_iff :
    disk.storeFile output = .ok stored ↔ ∃ place, disk.Stores output stored place := by
  constructor
  · intro h
    obtain ⟨made, hmade, hwrite⟩ := bind_eq_ok h
    obtain ⟨place, found, hlocate, hfound, rfl, hstat⟩ := writeBytes_eq_ok_iff.1 hwrite
    obtain ⟨hfinds, rfl⟩ := locate_eq_ok_iff.1 hlocate
    exact ⟨place, ⟨made, hmade, hfinds, hfound, rfl⟩, hstat⟩
  · rintro ⟨place, ⟨made, hmade, hfinds, hfound, rfl⟩, hstat⟩
    rw [storeFile, hmade]
    exact writeBytes_eq_ok_iff.2 ⟨place, _, locate_eq_ok_iff.2 ⟨hfinds, rfl⟩, hfound, rfl, hstat⟩

def Writable (disk : Disk) (place : List Text) : Prop :=
  ∀ node, disk.lookup place = some node → ∃ contents, node = .file contents

theorem Writable.ne_directory (h : disk.Writable place) : disk.lookup place ≠ some .directory := by
  intro hdirectory
  obtain ⟨contents, hfile⟩ := h _ hdirectory
  cases hfile

theorem Writable.keeps_put (h : disk.Writable place) (hne : place ≠ []) {contents : Bytes} :
    disk.Keeps (disk.put place (.file contents)) := by
  refine Disk.keeps_put ?_ hne
  intro old hold
  obtain ⟨_, rfl⟩ := h old hold
  rfl

theorem Leads.eq_of_put {links : Nat} {start : List Text} {contents : Bytes}
    (h : disk.Leads links start names place) (hnone : disk.lookup place = none)
    (h' : (disk.put place (.file contents)).Leads links start names place') : place' = place := by
  have hne : place ≠ [] := by
    rintro rfl
    cases hnone
  have kept : ∀ {names node}, disk.lookup names = some node →
      (disk.put place (.file contents)).lookup names = some node := by
    intro names node hnode
    rw [lookup_put_of_ne, hnode]
    rintro rfl
    rw [hnone] at hnode
    cases hnode
  have hwalk := h'.walk_eq
  clear h'
  induction h with
  | stop links start =>
    cases (Leads.stop links start).walk_eq.symm.trans hwalk
    rfl
  | stay hstart hname _ ih =>
    rw [walk_congr (advance_stay (kept hstart) hname)] at hwalk
    exact ih hnone hne kept hwalk
  | up hstart _ ih =>
    rw [walk_congr (advance_up (kept hstart))] at hwalk
    exact ih hnone hne kept hwalk
  | down hstart hname hlength hnode hlink _ ih =>
    rw [walk_congr (advance_down (kept hstart) hname hlength (kept hnode) hlink)] at hwalk
    exact ih hnone hne kept hwalk
  | link hstart hname hlength hnode _ ih =>
    rw [walk_link (kept hstart) hname hlength (kept hnode)] at hwalk
    exact ih hnone hne kept hwalk
  | @missing links start names name hstart hname hlength _ _ =>
    have hfile : (disk.put (start ++ [name]) (.file contents)).lookup (start ++ [name]) =
        some (.file contents) := lookup_put_self hne
    rw [walk_congr (advance_down (kept hstart) hname hlength hfile (by simp))] at hwalk
    cases names with
    | nil =>
      cases (Leads.stop links (start ++ [name])).walk_eq.symm.trans hwalk
      rfl
    | cons =>
      have hstart' := (walk_eq_ok_iff.1 hwalk).1.lookup_start
      rw [hfile] at hstart'
      cases hstart'

namespace Stores

theorem place_ne_nil (h : disk.Stores output stored place) : place ≠ [] := by
  obtain ⟨⟨made, -, -, hfound, -⟩, -⟩ := h
  rintro rfl
  exact hfound rfl

theorem lookup_place (h : disk.Stores output stored place) :
    stored.lookup place = some (.file output.contents) := by
  have hne := h.place_ne_nil
  obtain ⟨⟨made, -, -, -, rfl⟩, -⟩ := h
  exact lookup_put_self hne

theorem unique (h : disk.Stores output stored place) (h' : disk.Stores output stored' place') :
    stored = stored' ∧ place = place' := by
  obtain ⟨⟨made, hmade, hfinds, -, rfl⟩, -⟩ := h
  obtain ⟨⟨made', hmade', hfinds', -, rfl⟩, -⟩ := h'
  cases hmade.symm.trans hmade'
  obtain rfl := hfinds.leads.unique hfinds'.leads
  exact ⟨rfl, rfl⟩

theorem exists_makes (h : disk.Stores output stored place) (closed : disk.Closed) :
    ∃ made, disk.Makes (startOf disk.here output.path.root) output.path.parent.names made ∧
      Nameable output.path.parent.toText ∧ made.Finds output.path.toText place ∧
      made.Writable place ∧ stored = made.put place (.file output.contents) := by
  obtain ⟨⟨made, hmade, hfinds, hfound, rfl⟩, -⟩ := h
  obtain ⟨nameable, hmakes⟩ := (ensureDirectory_iff closed output.proper.parent).1 hmade
  have closed' := hmakes.closed closed
  refine ⟨made, hmakes, nameable, hfinds, ?_, rfl⟩
  intro node hnode
  cases node with
  | directory => exact absurd hnode hfound
  | file contents => exact ⟨contents, rfl⟩
  | link target =>
    exact absurd hnode (hfinds.leads.lookup_ne_link (closed'.lookup_startOf _) closed' target)

theorem closed (h : disk.Stores output stored place) (closed : disk.Closed) : stored.Closed := by
  have hne := h.place_ne_nil
  obtain ⟨made, hmakes, -, hfinds, hwritable, rfl⟩ := h.exists_makes closed
  have closed' := hmakes.closed closed
  exact closed'.put hne (hfinds.leads.lookup_dropLast (closed'.lookup_startOf _) closed')
    fun hdirectory => absurd hdirectory hwritable.ne_directory

theorem keeps (h : disk.Stores output stored place) (closed : disk.Closed) : disk.Keeps stored := by
  have hne := h.place_ne_nil
  obtain ⟨made, hmakes, -, -, hwritable, rfl⟩ := h.exists_makes closed
  exact hmakes.keeps.trans (hwritable.keeps_put hne)

theorem finds (h : disk.Stores output stored place) (closed : disk.Closed) :
    stored.Finds output.path.toText place := by
  obtain ⟨place', node, hfinds, -, -⟩ := stat_eq_some_iff.1 h.stat
  suffices hplace : place' = place from hplace ▸ hfinds
  have hne := h.place_ne_nil
  obtain ⟨made, hmakes, -, hmade, hwritable, rfl⟩ := h.exists_makes closed
  cases hnode : made.lookup place with
  | none => exact hmade.leads.eq_of_put hnode hfinds.leads
  | some node =>
    exact hfinds.leads.unique (hmade.keeps (hwritable.keeps_put hne) (by simp [hnode])).leads

theorem new (h : disk.Stores output stored place) (closed : disk.Closed) (hnames : names ≠ place) :
    stored.lookup names = disk.lookup names ∨
      disk.lookup names = none ∧ stored.lookup names = some .directory := by
  obtain ⟨made, hmakes, -, -, -, rfl⟩ := h.exists_makes closed
  rw [lookup_put_of_ne hnames]
  exact hmakes.new names

theorem transfer (h : disk.Stores output stored place) (closed : disk.Closed)
    (closed' : other.Closed) (hkeeps : disk.Keeps other) (hfits : stored.Fits other)
    (hplace : disk.lookup place = none → other.lookup place = none) :
    ∃ stored', other.Stores output stored' place ∧ stored.Keeps stored' ∧
      ∀ names, names ≠ place →
        stored'.lookup names = (other.lookup names).or (stored.lookup names) := by
  have hne := h.place_ne_nil
  have hstat := h.stat
  obtain ⟨made, hmakes, nameable, hfinds, hwritable, rfl⟩ := h.exists_makes closed
  obtain ⟨made', hmakes', hkeeps', hlookup⟩ :=
    hmakes.transfer hkeeps ((hwritable.keeps_put hne).fits_of_fits hfits)
  have hfree : made.lookup place = none → made'.lookup place = none := by
    intro hnone
    rw [hlookup, hplace (hmakes.keeps.none hnone), hnone]
    rfl
  have hwritable' : made'.Writable place := by
    intro node hnode
    cases hold : made.lookup place with
    | none =>
      rw [hfree hold] at hnode
      cases hnode
    | some old =>
      obtain ⟨contents, rfl⟩ := hwritable old hold
      obtain ⟨contents', hfile⟩ := hkeeps'.file hold
      exact ⟨contents', Option.some.inj (hnode.symm.trans hfile)⟩
  rw [← hkeeps.here] at hmakes'
  have hensure := (ensureDirectory_iff closed' output.proper.parent).2 ⟨nameable, hmakes'⟩
  have hwritten : made'.Keeps (made'.put place (.file output.contents)) := hwritable'.keeps_put hne
  have hkept := (hkeeps'.trans hwritten).put_left hne (lookup_put_self hne)
  refine ⟨made'.put place (.file output.contents),
    ⟨⟨made', hensure, hfinds.keeps hkeeps' hfree, hwritable'.ne_directory, rfl⟩, hkept.stat hstat⟩,
    hkept, ?_⟩
  · intro names hnames
    rw [lookup_put_of_ne hnames, lookup_put_of_ne hnames, hlookup]

end Stores

structure Storable (disk : Disk) (outputs : List Output) : Prop where
  alone : ∀ output ∈ outputs, ∃ stored, disk.storeFile output = .ok stored
  apart : outputs.Pairwise disk.Apart

instance (disk : Disk) (outputs : List Output) : Decidable (disk.Storable outputs) :=
  decidable_of_iff ((∀ output ∈ outputs, ∃ stored, disk.storeFile output = .ok stored) ∧
      outputs.Pairwise disk.Apart)
    ⟨fun ⟨alone, apart⟩ => ⟨alone, apart⟩, fun ⟨alone, apart⟩ => ⟨alone, apart⟩⟩

/-- A disk on which files have been stored, each as if it were the only one. -/
structure Carries (disk : Disk) (outputs : List Output) (carrier : Disk) : Prop where
  closed : carrier.Closed
  keeps : disk.Keeps carrier
  each : ∀ output ∈ outputs, ∀ stored place, disk.Stores output stored place →
    stored.Keeps carrier ∧ carrier.lookup place = some (.file output.contents)
  others : ∀ names, carrier.lookup names = disk.lookup names ∨
    ∃ output ∈ outputs, ∃ stored place, disk.Stores output stored place ∧
      carrier.lookup names = stored.lookup names

theorem carries_nil (closed : disk.Closed) : disk.Carries [] disk where
  closed := closed
  keeps := .refl disk
  each _ h := absurd h List.not_mem_nil
  others _ := .inl rfl

theorem Apart.of_stores (h : disk.Apart a b) (closed : disk.Closed)
    (ha : disk.Stores a stored place) (hb : disk.Stores b stored' place') :
    place ≠ place' ∧ stored'.lookup place ≠ some .directory ∧
      stored.lookup place' ≠ some .directory :=
  h stored (storeFile_eq_ok_iff.2 ⟨place, ha⟩) stored' (storeFile_eq_ok_iff.2 ⟨place', hb⟩)
    _ (locate_eq_ok_iff.2 ⟨ha.finds closed, rfl⟩) _ (locate_eq_ok_iff.2 ⟨hb.finds closed, rfl⟩)

theorem Apart.fits (h : disk.Apart a b) (closed : disk.Closed) (ha : disk.Stores a stored place)
    (hb : disk.Stores b stored' place') : stored.Fits stored' := by
  obtain ⟨hne, hplace, hplace'⟩ := h.of_stores closed ha hb
  intro names node node' hnode hnode'
  cases hold : disk.lookup names with
  | some old =>
    obtain ⟨_, hsame, hseen⟩ := (ha.keeps closed).lookup names old hold
    obtain ⟨_, hsame', hseen'⟩ := (hb.keeps closed).lookup names old hold
    cases hnode.symm.trans hsame
    cases hnode'.symm.trans hsame'
    rw [hseen, hseen']
  | none =>
    -- What is new is a directory, or the file; and where the file of one is, the other has nothing.
    have hnew : names ≠ place → node = .directory := by
      intro hnames
      obtain hsame | ⟨-, hdirectory⟩ := ha.new closed hnames
      · rw [hnode, hold] at hsame
        cases hsame
      · exact Option.some.inj (hnode.symm.trans hdirectory)
    have hnew' : names ≠ place' → node' = .directory := by
      intro hnames
      obtain hsame | ⟨-, hdirectory⟩ := hb.new closed hnames
      · rw [hnode', hold] at hsame
        cases hsame
      · exact Option.some.inj (hnode'.symm.trans hdirectory)
    have hnames : names ≠ place := by
      rintro rfl
      exact hplace (hnode'.trans (congrArg some (hnew' hne)))
    have hnames' : names ≠ place' := by
      rintro rfl
      exact hplace' (hnode.trans (congrArg some (hnew hne.symm)))
    rw [hnew hnames, hnew' hnames']

namespace Carries

variable {carrier : Disk}

theorem fits (h : disk.Carries outputs carrier) (closed : disk.Closed)
    (hstores : disk.Stores output stored place)
    (apart : ∀ other ∈ outputs, disk.Apart other output) :
    stored.Fits carrier := by
  intro names node node' hnode hnode'
  obtain hsame | ⟨other, hother, stored', place', hstores', hsame⟩ := h.others names
  · exact ((hstores.keeps closed).fits.symm names node node' hnode (hsame ▸ hnode'))
  · exact ((apart other hother).fits closed hstores' hstores).symm names node node' hnode
      (hsame ▸ hnode')

theorem lookup_place (h : disk.Carries outputs carrier) (closed : disk.Closed)
    (hstores : disk.Stores output stored place)
    (apart : ∀ other ∈ outputs, disk.Apart other output) :
    carrier.lookup place = disk.lookup place := by
  obtain hsame | ⟨other, hother, stored', place', hstores', hsame⟩ := h.others place
  · exact hsame
  · obtain ⟨hne, -, hplace⟩ := (apart other hother).of_stores closed hstores' hstores
    obtain hold | ⟨-, hdirectory⟩ := hstores'.new closed hne.symm
    · rw [hsame, hold]
    · exact absurd hdirectory hplace

theorem store (h : disk.Carries outputs carrier) (closed : disk.Closed)
    (hstores : disk.Stores output stored place)
    (apart : ∀ other ∈ outputs, disk.Apart other output) :
    ∃ next, carrier.storeFile output = .ok next ∧ disk.Carries (outputs ++ [output]) next ∧
      carrier.Keeps next ∧ ∀ names, carrier.lookup names = disk.lookup names ∨
        carrier.lookup names = next.lookup names := by
  have hplace := h.lookup_place closed hstores apart
  obtain ⟨next, hnext, hkeeps, hlookup⟩ := hstores.transfer closed h.closed h.keeps
    (h.fits closed hstores apart) (hplace.trans ·)
  have hkept : carrier.Keeps next := hnext.keeps h.closed
  refine ⟨next, storeFile_eq_ok_iff.2 ⟨place, hnext⟩, ?_, hkept, ?_⟩
  · refine ⟨hnext.closed h.closed, h.keeps.trans hkept, ?_, ?_⟩
    · rw [List.forall_mem_append, List.forall_mem_singleton]
      constructor
      · intro other hother stored' place' hstores'
        obtain ⟨hstored', hfile⟩ := h.each other hother stored' place' hstores'
        obtain ⟨hne, -, -⟩ := (apart other hother).of_stores closed hstores' hstores
        refine ⟨hstored'.trans hkept, ?_⟩
        rw [hlookup place' hne, hfile, Option.some_or]
      · intro stored' place' hstores'
        obtain ⟨rfl, rfl⟩ := hstores.unique hstores'
        exact ⟨hkeeps, hnext.lookup_place⟩
    · intro names
      by_cases hnames : names = place
      · subst hnames
        exact .inr ⟨output, by simp, stored, names, hstores, by
          rw [hnext.lookup_place, hstores.lookup_place]⟩
      · rw [hlookup names hnames]
        cases hcarrier : carrier.lookup names with
        | none => exact .inr ⟨output, by simp, stored, place, hstores, Option.none_or⟩
        | some node =>
          rw [Option.some_or, ← hcarrier]
          refine (h.others names).imp id ?_
          rintro ⟨other, hother, found⟩
          exact ⟨other, List.mem_append_left _ hother, found⟩
  · intro names
    by_cases hnames : names = place
    · exact .inl (hnames ▸ hplace)
    · rw [hlookup names hnames]
      cases hcarrier : carrier.lookup names with
      | none => exact .inl (h.keeps.none hcarrier).symm
      | some node => exact .inr Option.some_or.symm

theorem readBytes (h : disk.Carries outputs carrier) (closed : disk.Closed)
    (houtput : output ∈ outputs) (hstore : disk.storeFile output = .ok stored) :
    carrier.readBytes output.path.toText = .ok output.contents := by
  obtain ⟨place, hstores⟩ := storeFile_eq_ok_iff.1 hstore
  obtain ⟨hkeeps, hfile⟩ := h.each output houtput stored place hstores
  have hfinds := (hstores.finds closed).keeps hkeeps (by simp [hstores.lookup_place])
  exact readBytes_eq_ok_iff_finds.2 ⟨place, hfinds, hfile⟩

end Carries

theorem Storable.exists_storeAll (closed : disk.Closed) (storable : disk.Storable outputs) :
    ∃ last, disk.storeAll outputs = .ok last ∧ disk.Carries outputs last ∧
      ∀ done, done <+: outputs → ∃ carrier, disk.storeAll done = .ok carrier ∧
        disk.Carries done carrier ∧ Between disk last carrier := by
  induction outputs using List.reverseRecOn with
  | nil =>
    refine ⟨disk, rfl, carries_nil closed, ?_⟩
    intro done hdone
    obtain rfl := List.prefix_nil.1 hdone
    exact ⟨disk, rfl, carries_nil closed, .refl disk, .refl disk, fun _ => .inl rfl⟩
  | append_singleton outputs output ih =>
    obtain ⟨alone, apart⟩ := storable
    obtain ⟨alone, stored, hstored⟩ := List.forall_mem_append.1 alone |>.imp id
      List.forall_mem_singleton.1
    obtain ⟨apart, -, apart'⟩ := List.pairwise_append.1 apart
    obtain ⟨last, hlast, hcarries, hway⟩ := ih ⟨alone, apart⟩
    obtain ⟨place, hstores⟩ := storeFile_eq_ok_iff.1 hstored
    obtain ⟨next, hnext, hcarries', hkeeps, heither⟩ := hcarries.store closed hstores
      fun other hother => apart' other hother output List.mem_cons_self
    have hall : disk.storeAll (outputs ++ [output]) = .ok next := by
      rw [storeAll_concat, hlast]
      exact hnext
    refine ⟨next, hall, hcarries', ?_⟩
    intro done hdone
    obtain rfl | hdone := List.prefix_concat_iff.1 hdone
    · exact ⟨next, hall, hcarries', hcarries'.keeps, .refl next, fun _ => .inr rfl⟩
    · obtain ⟨carrier, hcarrier, hcarriesDone, hbetween⟩ := hway done hdone
      exact ⟨carrier, hcarrier, hcarriesDone, hbetween.extend hkeeps heither⟩

theorem Storable.carries (storable : disk.Storable outputs) (closed : disk.Closed)
    (hstored : disk.storeAll outputs = .ok stored) : disk.Carries outputs stored := by
  obtain ⟨last, hlast, hcarries, -⟩ := storable.exists_storeAll closed
  obtain rfl : last = stored := Except.ok.inj (hlast.symm.trans hstored)
  exact hcarries

theorem Storable.readBytes (storable : disk.Storable outputs) (closed : disk.Closed)
    (hstored : disk.storeAll outputs = .ok stored) (houtput : output ∈ outputs) :
    stored.readBytes output.path.toText = .ok output.contents := by
  obtain ⟨alone, halone⟩ := storable.alone output houtput
  exact (storable.carries closed hstored).readBytes closed houtput halone

end Relink.Disk
