import FirmwareAudit.Proofs.ArtifactNames

/-! # The names that follow from a plan

Whatever text the image was given as, its artifacts print as the image does with an ending behind it,
no two of them alike, and lie where the image lies. The definitions of a chip lie in the include
directory, in a file with the chip's name in front.
-/
namespace FirmwareAudit

namespace Path

/-- The last name of a path. -/
def lastName? (p : Path) : Option String := p.names.getLast?

theorem ofString_name {name : String} (h : IsName name) :
    ofString name = ⟨.relative, [name], List.forall_mem_singleton.2 h⟩ := by
  have hparts := ofString_text .relative (List.cons_ne_nil name []) (List.forall_mem_singleton.2 h)
  simpa [Anchor.text] using hparts

/-- A name in a directory. -/
theorem join_name (dir : Path) {name : String} (h : IsName name) :
    (dir.join (ofString name)).parent = dir ∧
      (dir.join (ofString name)).lastName? = some name := by
  rw [ofString_name h, join, if_pos rfl]
  refine ⟨eq_of_parts rfl ?_, ?_⟩
  · exact List.dropLast_concat
  · exact List.getLast?_concat

theorem toString_withEnding_ne (p : Path) {e : String} (he : IsEnding e) :
    (p.withEnding e).toString ≠ p.toString := by
  rw [toString_withEnding p he]
  intro h
  have hlen := congrArg String.length h
  rw [String.length_append] at hlen
  have hthree := he.2
  omega

end Path

namespace Artifacts

theorem toString_all (image : Path) :
    (ofImage image).all.map Path.toString = endings.map (image.toString ++ ·) := by
  rw [all_ofImage, List.map_map]
  exact List.map_congr_left fun e he => image.toString_withEnding (isEnding_of_mem he)

/-- Neither two artifacts nor an artifact and the image print alike. -/
theorem nodup_texts (image : Path) :
    (image.toString :: (ofImage image).all.map Path.toString).Nodup := by
  refine List.nodup_cons.2 ⟨?_, (nodup_all image).map fun p q => Path.toString_injective⟩
  intro h
  obtain ⟨f, hf, ht⟩ := List.mem_map.1 h
  obtain ⟨e, he, rfl, -⟩ := toString_of_mem_all hf
  exact image.toString_withEnding_ne (isEnding_of_mem he) ht

theorem parent_of_mem_all {image f : Path} (h : f ∈ (ofImage image).all) :
    f.parent = image.parent := by
  obtain ⟨e, he, rfl, -⟩ := toString_of_mem_all h
  exact image.parent_withEnding (isEnding_of_mem he)

end Artifacts

namespace Plan

theorem isName_definitions {chip : String} (h : '/' ∉ chip.toList) : IsName (chip ++ "def.inc") :=
  IsEnding.isName_append (by decide) h

/-- The names of a plan for the image and the include directory that two texts name. The artifacts
print as the image with their endings, differ from each other and from the image, and have its
parent. With no slash in the chip's name, its definitions are a file of that name with an ending, in
the include directory. -/
theorem derived_names (p : Plan) (image dir : String) (hchip : '/' ∉ p.chip.shown.toList) :
    let q : Plan := { p with image := .ofString image, includeDir := .ofString dir }
    let text := q.image.toString
    q.artifacts.all.map Path.toString = Artifacts.endings.map (text ++ ·) ∧
      (text :: q.artifacts.all.map Path.toString).Nodup ∧
      (∀ f ∈ q.artifacts.all, f.parent = (Path.ofString text).parent) ∧
      q.chipDefinitions.parent = .ofString dir ∧
      q.chipDefinitions.lastName? = some (p.chip.shown ++ "def.inc") := by
  intro q text
  have hdefinitions := q.includeDir.join_name (isName_definitions hchip)
  refine ⟨Artifacts.toString_all _, Artifacts.nodup_texts _, ?_, hdefinitions⟩
  intro f hf
  rw [Path.ofString_toString]
  exact Artifacts.parent_of_mem_all hf

/-- An image without names, an empty include directory and a chip of braces and dots. -/
theorem derived_names_dots :
    let q : Plan := { ofImage (.ofString "././/") with
      includeDir := .ofString "", chip := .text "\x7b\x7d.." }
    '/' ∉ q.chip.shown.toList ∧
      q.artifacts.all.map Path.toString = ["..raw.asm", "..asm", "..hex", "..eep.hex", "..obj",
        "..cof", "..reassembled"] ∧
      q.chipDefinitions.parent = .ofString "" ∧
      q.chipDefinitions.lastName? = some "\x7b\x7d..def.inc" := by
  intro q
  have hchip : '/' ∉ q.chip.shown.toList := by decide
  obtain ⟨htexts, -, -, hparent, hlast⟩ := derived_names q "././/" "" hchip
  exact ⟨hchip, htexts.trans (by decide), hparent, hlast⟩

end Plan

end FirmwareAudit
