import Mathlib.Data.List.Basic
import SchemaGraft.Report

/-!
# What reports show

A report with some sources shows the labels of a diagnosis whose places are in one of the files of
these sources, in the order of the labels (`Diagnosis.map_ofShown_shownLabels`). Nothing of this
gets lost where the labels are grouped by files: there is a heading for each of the files, and the
first line of every label that can be shown stands under one of them
(`Diagnosis.labels_report_perm`).
-/

set_option autoImplicit false

namespace SchemaGraft

/-! ## Groups -/

/-- Items that are grouped by keys are still the same items. -/
theorem flatMap_filter_perm {α κ : Type} [DecidableEq κ] (key : α → κ) {keys : List κ}
    (distinct : keys.Nodup) {items : List α} (covered : ∀ item ∈ items, key item ∈ keys) :
    (keys.flatMap fun own => items.filter fun item => key item == own).Perm items := by
  induction keys generalizing items with
  | nil =>
      rw [List.eq_nil_iff_forall_not_mem.2 fun item member =>
        List.not_mem_nil (covered item member)]
      exact .nil
  | cons first rest ih =>
      obtain ⟨apart, distinct⟩ := List.nodup_cons.1 distinct
      -- The other keys see none of the items of the first one.
      have others : (rest.flatMap fun own => items.filter fun item => key item == own) =
          rest.flatMap fun own => (items.filter fun item => !(key item == first)).filter
            fun item => key item == own := by
        refine List.flatMap_congr fun own member => ?_
        rw [List.filter_filter]
        refine List.filter_congr fun item _ => ?_
        by_cases same : key item = own
        · have other : (key item == first) = false :=
            beq_false_of_ne fun clash => apart (clash ▸ same ▸ member)
          simp [other]
        · simp [same]
      rw [List.flatMap_cons, others]
      refine (List.Perm.append_left _ (ih distinct fun item member => ?_)).trans
        (List.filter_append_perm _ _)
      rw [List.mem_filter] at member
      have listed := covered item member.1
      simpa [show key item ≠ first by simpa using member.2] using listed

/-- The label of which a place and a message are shown. -/
def Label.ofShown (shown : Location × String) : Label := ⟨some shown.1, shown.2⟩

namespace Diagnosis

/-! ## Files of places -/

theorem mem_filesOf_iff {locations : List Location} {file : FileId} :
    file ∈ filesOf locations ↔ ∃ location ∈ locations, location.file = file := by
  induction locations with
  | nil => simp [filesOf]
  | cons location rest ih =>
      by_cases same : file = location.file
      · simp [filesOf, same]
      · have other : ¬ location.file = file := fun clash => same clash.symm
        simp [filesOf, same, other, ih]

theorem nodup_filesOf (locations : List Location) : (filesOf locations).Nodup := by
  induction locations with
  | nil => exact .nil
  | cons location rest ih =>
      refine List.nodup_cons.2 ⟨fun member => ?_, ih.filter _⟩
      simp at member

/-! ## Labels that are shown -/

variable (diagnosis : Diagnosis) (sources : SourceMap)

/-- **A report shows the labels on places in the files of its sources**, in their order. -/
theorem map_ofShown_shownLabels : (diagnosis.shownLabels sources).map Label.ofShown =
    diagnosis.labels.filter fun label =>
      label.location.any fun location => sources.contains location.file := by
  rw [shownLabels]
  induction diagnosis.labels with
  | nil => rfl
  | cons label rest ih =>
      obtain ⟨place, message⟩ := label
      cases place with
      | none => exact ih
      | some location =>
          cases contained : sources.contains location.file with
          | false => simpa [contained] using ih
          | true => simpa [contained, Label.ofShown] using ih

variable {diagnosis sources}

theorem contains_of_mem_shownLabels {label : Location × String}
    (shown : label ∈ diagnosis.shownLabels sources) : sources.contains label.1.file = true := by
  have member := List.mem_map_of_mem (f := Label.ofShown) shown
  rw [map_ofShown_shownLabels, List.mem_filter] at member
  exact member.2

theorem labels_fileReport?_perm {file : FileId} {report : FileReport}
    (found : diagnosis.fileReport? sources file = some report) :
    report.labels.Perm (((diagnosis.shownLabels sources).filter fun label =>
      label.1.file == file).map fun label => Report.cutLine label.2) := by
  simp only [fileReport?, Option.bind_eq_bind, Option.bind_eq_some_iff] at found
  obtain ⟨source, _, anchor, _, found⟩ := found
  cases found
  exact List.mergeSort_perm _ _

/-- There is something to show about every file that a label is on. -/
theorem exists_fileReport? {file : FileId}
    (member : file ∈ filesOf ((diagnosis.shownLabels sources).map (·.1))) :
    ∃ report, diagnosis.fileReport? sources file = some report := by
  obtain ⟨location, listed, same⟩ := mem_filesOf_iff.1 member
  obtain ⟨label, shown, rfl⟩ := List.mem_map.1 listed
  have contained := contains_of_mem_shownLabels shown
  rw [same, OrderedMap.contains_eq_isSome_get?, Option.isSome_iff_exists] at contained
  obtain ⟨source, found⟩ := contained
  have labels : ((diagnosis.shownLabels sources).filter fun label => label.1.file == file) ≠ [] :=
    List.ne_nil_of_mem (List.mem_filter.2 ⟨shown, beq_iff_eq.2 same⟩)
  obtain ⟨anchor, anchored⟩ : ∃ anchor, diagnosis.anchor? file
      ((diagnosis.shownLabels sources).filter fun label => label.1.file == file) = some anchor := by
    obtain ⟨first, rest, split⟩ := List.exists_cons_of_ne_nil labels
    rw [anchor?, split]
    split
    · split
      · exact ⟨_, rfl⟩
      · exact ⟨_, rfl⟩
    · exact ⟨_, rfl⟩
  simp [fileReport?, found, anchored]

/-- **Every label that can be shown is in the report.** -/
theorem labels_report_perm (diagnosis : Diagnosis) (sources : SourceMap) :
    ((diagnosis.report sources).files.flatMap (·.labels)).Perm
      ((diagnosis.shownLabels sources).map fun label => Report.cutLine label.2) := by
  have files : ∀ {files : List FileId},
      (∀ file ∈ files, file ∈ filesOf ((diagnosis.shownLabels sources).map (·.1))) →
      ((files.filterMap (diagnosis.fileReport? sources)).flatMap (·.labels)).Perm
        (files.flatMap fun file => ((diagnosis.shownLabels sources).filter fun label =>
          label.1.file == file).map fun label => Report.cutLine label.2) := by
    intro files
    induction files with
    | nil => exact fun _ => .nil
    | cons file rest ih =>
        intro listed
        rw [List.forall_mem_cons] at listed
        obtain ⟨report, found⟩ := exists_fileReport? listed.1
        rw [List.filterMap_cons_some found, List.flatMap_cons, List.flatMap_cons]
        exact (labels_fileReport?_perm found).append (ih listed.2)
  refine (files fun _ => id).trans ?_
  rw [← List.map_flatMap]
  refine (flatMap_filter_perm (fun label : Location × String => label.1.file)
    (nodup_filesOf _) fun label member => ?_).map _
  exact mem_filesOf_iff.2 ⟨label.1, List.mem_map_of_mem member, rfl⟩

end Diagnosis

end SchemaGraft
