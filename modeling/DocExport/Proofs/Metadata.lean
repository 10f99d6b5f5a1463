import DocExport.Proofs.Nodes
import DocExport.Proofs.Refusals

/-! Metadata that documents in a response are rid of. With the transform for it, what stands at the root of a
document under a key of metadata does not bear on a response or on a failure, and all else is as without it. -/
namespace DocExport
open Transform
variable {a b : List Member} {d e : Document} {docs docs' : List Document}

/-- Members that are the same, in the same order, but for some with keys of metadata. -/
inductive SameVisible : List Member → List Member → Prop where
  | nil : SameVisible [] []
  | both {a b : List Member} (member : Member) : SameVisible a b → SameVisible (member :: a) (member :: b)
  | left {a b : List Member} {key : String} (value : Document) :
    isMetaKey key → SameVisible a b → SameVisible ((key, value) :: a) b
  | right {a b : List Member} {key : String} (value : Document) :
    isMetaKey key → SameVisible a b → SameVisible a ((key, value) :: b)

theorem SameVisible.filter_eq (h : SameVisible a b) :
    a.filter (fun member => !isMetaKey member.1) = b.filter fun member => !isMetaKey member.1 := by
  induction h with
  | nil => rfl
  | both member _ ih => rw [List.filter_cons, List.filter_cons, ih]
  | left value hkey _ ih => rw [List.filter_cons_of_neg (by simp [hkey]), ih]
  | right value hkey _ ih => rw [List.filter_cons_of_neg (by simp [hkey]), ih]

theorem sameVisible_filter (members : List Member) :
    SameVisible members (members.filter fun member => !isMetaKey member.1) := by
  induction members with
  | nil => exact .nil
  | cons member members ih =>
    by_cases hkey : isMetaKey member.1
    · rw [List.filter_cons_of_neg (by simp [hkey])]
      exact .left member.2 hkey ih
    · rw [List.filter_cons_of_pos (by simp [hkey])]
      exact .both member ih

namespace Document

/-- Documents that are the same but for metadata at the root. -/
inductive SameVisible : Document → Document → Prop where
  | same (d : Document) : SameVisible d d
  | object {a b : List Member} : DocExport.SameVisible a b → SameVisible (.object a) (.object b)

theorem SameVisible.apply_eq (h : d.SameVisible e) : stripMeta.apply d = stripMeta.apply e := by
  cases h with
  | same => rfl
  | object h => exact congrArg Document.object h.filter_eq

theorem sameVisible_apply (d : Document) : d.SameVisible (stripMeta.apply d) := by
  cases d with
  | scalar s => exact .same _
  | array items => exact .same _
  | object members => exact .object (sameVisible_filter members)

theorem not_isMetaKey_of_mem_keys_apply {key : String} (h : key ∈ (stripMeta.apply d).keys) : ¬ isMetaKey key := by
  cases d with
  | scalar s => exact absurd h List.not_mem_nil
  | array items => exact absurd h List.not_mem_nil
  | object members =>
    obtain ⟨member, hmember, rfl⟩ := List.mem_map.mp h
    simpa using (List.mem_filter.mp hmember).2

end Document

namespace Renderer

/-- Two renderers with the same settings give the same response to documents that they change alike. -/
theorem render_congr_of_forall₂ {renderer renderer' : Renderer} {request : Request} {format : Format}
    (hselect : request.SelectsDocuments format) (hsettings : renderer.settings = renderer'.settings)
    (h : List.Forall₂ (fun d e => renderer.transform d = renderer'.transform e) docs docs') :
    renderer.render request docs = renderer'.render request docs' := by
  have hbare : renderer.bare request docs = renderer'.bare request docs' := by
    rw [bare_of_selectsDocuments hselect, bare_of_selectsDocuments hselect, mapM_congr_of_forall₂ h,
      layout, layout, hsettings]
  rw [render_eq_bind_bare, render_eq_bind_bare, hbare, hsettings]

/-- Where metadata is taken out, documents that differ in nothing else get the same response or the same
failure, whatever the request asks of them. It is the one that they get without their metadata where nothing
is taken out, so members below the root stay, whatever their keys are. -/
theorem render_stripMeta (catalog : Catalog) (s : Settings) (renderer : Renderer)
    (h : ofSettings catalog s = .ok renderer) (hs : s.transform = stripMeta.name) (request : Request) (format : Format)
    (hselect : request.SelectsDocuments format) :
    (∀ docs docs', List.Forall₂ Document.SameVisible docs docs' →
        renderer.render request docs = renderer.render request docs') ∧
      ∀ docs, ∃ bared, List.Forall₂ (fun d e => d.SameVisible e ∧ ∀ key ∈ e.keys, ¬ isMetaKey key) docs bared ∧
        renderer.render request docs = Renderer.render ⟨s, .ok⟩ request bared := by
  obtain ⟨transform, hname, rfl⟩ := exists_transform_of_ofSettings h
  have htransform : transform = stripMeta := by
    rw [hs] at hname
    cases transform with
    | identity => exact absurd hname (by decide)
    | stripMeta => rfl
  subst htransform
  refine ⟨fun docs docs' hsame => ?_, fun docs => ⟨docs.map stripMeta.apply, ?_, ?_⟩⟩
  · refine render_congr_of_forall₂ hselect rfl (hsame.imp fun d e hvisible => ?_)
    exact congrArg Except.ok hvisible.apply_eq
  · rw [List.forall₂_map_right_iff, List.forall₂_same]
    exact fun d _ => ⟨d.sameVisible_apply, fun key => Document.not_isMetaKey_of_mem_keys_apply⟩
  · refine render_congr_of_forall₂ hselect rfl ?_
    rw [List.forall₂_map_right_iff, List.forall₂_same]
    exact fun d _ => rfl

/-- Keys that name metadata and what is below it give nulls; below the root an underscore means nothing. -/
theorem render_stripMeta_keys :
    let s : Settings := { transform := "strip-meta" }
    let renderer : Renderer := ⟨s, fun d => .ok (stripMeta.apply d)⟩
    let request : Request := { includeDocs := true, format := some "json", keys := ["_id", "_meta.x", "n._y"] }
    let inner : Member := ("n", .object [("_y", .scalar (.bool true))])
    let docs : List Document := [.object [("_id", .scalar (.string "a")), inner]]
    let docs' : List Document := [.object [inner, ("_meta", .object [("x", .scalar (.bool false))])]]
    let body := "\x7b\"_id\":null,\"_meta\":\x7b\"x\":null\x7d,\"n\":\x7b\"_y\":true\x7d\x7d"
    (ofSettings .builtIn s = .ok renderer ∧ s.transform = stripMeta.name ∧ request.SelectsDocuments .json ∧
        List.Forall₂ Document.SameVisible docs docs') ∧
      renderer.render request docs = .ok ⟨body, "application/json"⟩ ∧
      renderer.render request docs' = renderer.render request docs := by
  intro s renderer request inner docs docs' body
  have h : ofSettings .builtIn s = .ok renderer := by rfl
  have hselect : request.SelectsDocuments .json := ⟨rfl, rfl⟩
  have hid : isMetaKey "_id" := by decide
  have hmeta : isMetaKey "_meta" := by decide
  have hsame : List.Forall₂ Document.SameVisible docs docs' :=
    .cons (.object (.left _ hid (.both inner (.right _ hmeta .nil)))) .nil
  have hdocs := (render_stripMeta .builtIn s renderer h rfl request .json hselect).1 docs docs' hsame
  have hrender : renderer.render request docs = .ok ⟨body, "application/json"⟩ := by
    simp only [renderer, request, docs, inner, s, body]
    rfl
  exact ⟨⟨h, rfl, hselect, hsame⟩, hrender, hdocs.symm⟩

end Renderer
end DocExport
