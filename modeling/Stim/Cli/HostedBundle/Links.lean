import Stim.Cli.HostedBundle.Contents

/-!
# Where the links of a bundle lead

The last loop resolves a link by the names of its text, and the system goes through the links that
these names are.  Where no text has more than names behind a name both lead to the same place, inside
the bundle; otherwise a link that is accepted may lead out.
-/

namespace Stim.HostedBundle

open FileTree (Path)
open LinkTree (Apart Below Real Straight downs)

variable {platform : Platform} {blobs : JsString → Option Blob} {app : Path Name}
  {files : List HostedAppFile} {file : HostedAppFile} {disk : BundleDisk}

/-- Behind a name in the text of a link stand only names. -/
def HostedAppFile.Straight (blobs : JsString → Option Blob) (file : HostedAppFile) : Prop :=
  file.kind = .link → LinkTree.Straight (readWay (asText (contentOf blobs file))).steps

/-- A link in the bundle is one of the manifest. -/
theorem Laid.link_of_get (h : Laid platform blobs app files disk)
    (hapart : Apart (files.map HostedAppFile.names)) {way : Path Name} {text : JsString}
    (hget : FileTree.get disk.tree (app ++ way) = some (.file (.link text))) :
    ∃ file ∈ files, file.kind = .link ∧ text = asText (contentOf blobs file) := by
  -- What is no entry is a directory on the way to one.
  by_cases hmem : way ∈ files.map HostedAppFile.names
  · obtain ⟨file, hfile, rfl⟩ := List.mem_map.mp hmem
    rw [h.get_entry hapart hfile, entryOf] at hget
    split_ifs at hget with hkind
    · cases hget
      exact ⟨file, hfile, hkind, rfl⟩
    · cases hget
  · rw [get_dir h.below hapart hmem] at hget
    split_ifs at hget
    cases hget

/-- Where the texts of links are straight, no entry of a bundle leads out of it. -/
theorem links_lead_inside {area : Path Name} (hpaths : ∀ file ∈ files, isPath file.path = true)
    (hapart : Apart (files.map HostedAppFile.names))
    (hbare : Below (area ++ [APP]) disk LinkTree.bare) (harea : Real disk.tree area)
    (hmanifest : ∀ file ∈ files, file.Straight blobs)
    (hothers : ∀ q text, FileTree.get disk.tree q = some (.file (.link text)) →
      Straight (readWay text).steps)
    (h : (fillBundle platform blobs area files disk).1 = .ok files) :
    ∀ file ∈ files, ∀ path,
      LinkTree.realpath readWay platform.limit (fillBundle platform blobs area files disk).2
          (area ++ [APP]) (downs file.names) = some path →
        area ++ [APP] <+: path ∧ path ≠ area ++ [APP] := by
  obtain ⟨hconfined, hrun⟩ := fillBundle_below platform blobs area hpaths hapart hbare
  have hlaid := (hrun files h).2
  generalize (fillBundle platform blobs area files disk).2 = after at hconfined hlaid ⊢
  have hstraight : ∀ q text, FileTree.get after.tree q = some (.file (.link text)) →
      Straight (readWay text).steps := by
    intro q text hget
    by_cases hq : area ++ [APP] <+: q
    · obtain ⟨way, rfl⟩ := hq
      obtain ⟨file, hmem, hkind, rfl⟩ := hlaid.link_of_get hapart hget
      exact hmanifest file hmem hkind
    · rw [hconfined.tree q hq] at hget
      exact hothers q text hget
  have happ : Real after.tree (area ++ [APP]) := by
    intro front hfront hne
    rcases List.prefix_concat_iff.mp hfront with rfl | hfront
    · have hout : [] ∉ files.map HostedAppFile.names := by
        intro hmem
        obtain ⟨file, hfile, hnil⟩ := List.mem_map.mp hmem
        exact names_ne_nil (hpaths file hfile) hnil
      have htop := get_dir hlaid.below hapart hout
      rwa [List.append_nil, if_pos (Or.inl rfl)] at htop
    · have hout : ¬ area ++ [APP] <+: front := fun hpre =>
        LinkTree.not_concat_prefix area APP (hpre.trans hfront)
      rw [hconfined.tree front hout]
      exact harea front hfront hne
  obtain ⟨root, hroot, hentries⟩ := hlaid.answered
  have hself : LinkTree.walk readWay after.tree false platform.limit [] (downs (area ++ [APP])) =
      some (area ++ [APP]) := by
    rw [← List.append_nil (area ++ [APP]), LinkTree.walk_real happ [], List.append_nil]
    exact LinkTree.walk_nil _
  have htop : root = area ++ [APP] := LinkTree.replaceLinks_eq hstraight hroot hself
  subst htop
  intro file hmem path hpath
  obtain ⟨found, hfound, hinside⟩ := hentries file hmem
  rw [LinkTree.realpath, ← LinkTree.walk_real happ] at hpath
  obtain rfl : found = path := LinkTree.replaceLinks_eq hstraight hfound hpath
  exact hinside

/-! ## A link to a directory beside it, and a link that leads out -/

/-- The contents of blobs and their digests. -/
def contents : List (String × String) := [
  ("", "e3b0c44298fc1c149afbf4c8996fb92427ae41e4649b934ca495991b7852b855"),
  ("../../d", "cb19e58c8a599bd4753d50738d626df11890f591cc6476e47f3b5b8e1c6a7f7d"),
  ("x/../../receipt.json", "c4296674cbc6bec6516199d0bb18ccbfbf8318d6f75ff6598c3992c3566baa38")]

def bytesOf (content : String) : Bytes := Utf8.encode content.toList

def digestOf (bytes : Bytes) : JsString :=
  JsString.ofString (((contents.find? fun e => bytesOf e.1 == bytes).map Prod.snd).getD "")

def contentsBlobs (sha256 : JsString) : Option Blob :=
  (contents.find? fun e => JsString.ofString e.2 == sha256).map fun e => ⟨bytesOf e.1, 0o600⟩

/-- Paths in lower case are folded already. -/
def contentsPlatform : Platform where
  folding := ⟨id, fun _ _ => rfl, fun _ h => h, fun _ h => h, fun _ h => h⟩
  ordered a b := decide (a ≤ b)
  sha256 := digestOf
  limit := 40
  rounds := 40

def entry (path : String) (kind : Kind) (content : String) : HostedAppFile :=
  ⟨JsString.ofString path, kind, content.length, digestOf (bytesOf content)⟩

def receipt : Name := ⟨JsString.ofString "receipt.json", by decide⟩

/-- An empty `App.app` beside the receipt of the attempt. -/
def emptyBundle : BundleDisk := ⟨[([APP], .dir), ([receipt], .file (.file [] 0o600))], []⟩

def shortcut : HostedAppFile := entry "p/q/x" .link "../../d"

def shortcutFiles : List HostedAppFile := [entry "d/k" .file "", shortcut]

theorem links_lead_inside_shortcut : ∃ path,
    LinkTree.realpath readWay contentsPlatform.limit
        (fillBundle contentsPlatform contentsBlobs [] shortcutFiles emptyBundle).2 ([] ++ [APP])
        (downs shortcut.names) = some path ∧
      [] ++ [APP] <+: path ∧ path ≠ [] ++ [APP] := by
  have hbare : Below ([] ++ [APP]) emptyBundle LinkTree.bare := by
    intro way
    have hother : APP ≠ receipt := by decide +kernel
    simp [emptyBundle, FileTree.get, LinkTree.bare, hother]
  have hmanifest : ∀ file ∈ shortcutFiles, file.Straight contentsBlobs := by
    have hsteps : (readWay (asText (contentOf contentsBlobs shortcut))).steps =
        .up :: .up :: downs (names (JsString.ofString "d")) := by decide +kernel
    simp only [shortcutFiles, List.forall_mem_cons]
    refine ⟨fun h => absurd h (by decide), fun _ => ?_, List.forall_mem_nil _⟩
    rw [hsteps]
    exact ⟨[], rfl⟩
  have hothers : ∀ q text, FileTree.get emptyBundle.tree q = some (.file (.link text)) →
      Straight (readWay text).steps := by
    intro q text hget
    simp only [emptyBundle, FileTree.get] at hget
    split_ifs at hget <;> cases hget
  obtain ⟨hok, hleads⟩ :
      (fillBundle contentsPlatform contentsBlobs [] shortcutFiles emptyBundle).1 =
          .ok shortcutFiles ∧
        LinkTree.realpath readWay contentsPlatform.limit
          (fillBundle contentsPlatform contentsBlobs [] shortcutFiles emptyBundle).2 ([] ++ [APP])
          (downs shortcut.names) = some (APP :: names (JsString.ofString "d")) := by decide +kernel
  refine ⟨_, hleads, links_lead_inside (by decide +kernel) (by unfold Apart; decide +kernel) hbare
    ?_ hmanifest hothers hok shortcut (by decide +kernel) _ hleads⟩
  exact fun front hfront hne => absurd (List.prefix_nil.mp hfront) hne

def outwardFiles : List HostedAppFile :=
  [entry "d/k" .file "", entry "p/q/r" .link "x/../../receipt.json", shortcut,
    entry "p/receipt.json" .file ""]

/-- A text that goes up behind a link is accepted, and its link leads to the receipt. -/
theorem link_leads_out :
    (fillBundle contentsPlatform contentsBlobs [] outwardFiles emptyBundle).1 = .ok outwardFiles ∧
      LinkTree.realpath readWay contentsPlatform.limit
        (fillBundle contentsPlatform contentsBlobs [] outwardFiles emptyBundle).2 [APP]
        (downs (names (JsString.ofString "p/q/r"))) = some [receipt] := by
  decide +kernel

end Stim.HostedBundle
