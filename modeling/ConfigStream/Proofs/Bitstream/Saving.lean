import ConfigStream.Bitstream.Saving
import ConfigStream.Proofs.Disk.Basic

/-!
# What saving a bitstream changes

A bitstream that is saved with its summary is written to one file and the summary to another, in the
same directory and under the same name but for the ending (`Bitstream.save_with_report`). The two
are one file if the path ends with the extension of summaries, and then the summary replaces the
bitstream.
-/

namespace ConfigStream

variable {disk after : Disk} {path : String} {file summary : Location}

/-! ## Writing in order -/

/-- Files are written if the first is, and the others after it. -/
theorem Disk.writeAll_cons_eq_none {contents : List UInt8} {files : List (String × List UInt8)} :
    disk.writeAll ((path, contents) :: files) = (after, none) ↔
      ∃ between, disk.write path contents = .ok between ∧
        between.writeAll files = (after, none) := by
  rw [writeAll, runSteps_cons_eq_none]
  cases hwrite : disk.write path contents with
  | ok between => simp [hwrite, writeAll]
  | error fault => simp [hwrite]

namespace Bitstream

variable {bitstream : Bitstream}

/-- A bitstream is saved if its files are written. -/
theorem save_eq_ok {withReport : Bool} : bitstream.save disk path withReport = (after, .ok ()) ↔
    disk.writeAll (bitstream.saved path withReport) = (after, none) := by
  unfold save
  cases disk.writeAll (bitstream.saved path withReport) with
  | mk last failure => cases failure <;> simp

/-- A bitstream is saved with its summary if it is written, and the summary after it. -/
theorem exists_of_save (h : bitstream.save disk path true = (after, .ok ())) :
    ∃ between, disk.write path bitstream.data = .ok between ∧
      between.write (reportPath path) bitstream.report.toUTF8.data.toList = .ok after := by
  obtain ⟨between, hfirst, hrest⟩ := Disk.writeAll_cons_eq_none.1 (save_eq_ok.1 h)
  obtain ⟨last, hsecond, hlast⟩ := Disk.writeAll_cons_eq_none.1 hrest
  obtain ⟨rfl, -⟩ := Prod.mk.inj hlast
  exact ⟨between, hfirst, hsecond⟩

/-! ## Where the files are -/

theorem extension_noDot : '.' ∉ "rpt".toList := by decide

theorem extension_noSlash : '/' ∉ "rpt".toList := by decide

/-- A path and the path of the summary that both lead to files have the same directory and the same
stem, and the ending of the second is that of summaries. The files are one if the ending of the path
is this too. -/
theorem parts_of_locate (hlocate : disk.locate path (Path.names path) = .ok file)
    (hfile : disk.isDirectory file = false)
    (hreport : disk.locate (reportPath path) (Path.names (reportPath path)) = .ok summary)
    (hsummary : disk.isDirectory summary = false) :
    ∃ directory stem ending, Path.Parts path directory stem ending ∧
      Path.Parts (reportPath path) directory stem ".rpt".toList ∧
      (summary = file ↔ ending = ".rpt".toList) := by
  obtain ⟨directory, name, hpath, hdirectory, hslash, hcases⟩ :=
    Path.withExtension_cases path extension_noDot extension_noSlash
  have hsiblings (last : List Char) (hlast : '/' ∉ last)
      (hother : (reportPath path).toList = directory ++ last) :=
    Disk.exists_siblings hdirectory hpath hslash hother hlast hlocate hfile hreport hsummary
  rcases hcases with hspecial | habove | ⟨ending, hparts, hother⟩
  · have hspecials : ∀ name ∈ [[], ['.'], ['.', '.']], String.ofList name ∈ ["", ".", ".."] := by
      decide
    obtain ⟨hplain, -⟩ :=
      Disk.exists_siblings hdirectory hpath hslash hpath hslash hlocate hfile hlocate hfile
    exact absurd (hspecials name hspecial) hplain
  · obtain ⟨-, hplain, -⟩ := hsiblings ['.', '.'] (by decide) habove
    exact absurd (by decide) hplain
  · obtain ⟨-, -, here, hfileName, hsummaryName⟩ := hsiblings _ hother.noSlash hother.toList_eq
    have hname : name = Path.stem name ++ ending :=
      List.append_cancel_left (hpath.symm.trans hparts.toList_eq)
    generalize Path.stem name = stem at hparts hother hsummaryName hname
    subst hname
    refine ⟨directory, stem, ending, hparts, hother, ?_⟩
    have hrpt : '.' :: "rpt".toList = ".rpt".toList := by decide
    rw [hfileName, hsummaryName, List.append_right_inj, List.singleton_inj, String.ofList_inj,
      List.append_right_inj, hrpt, eq_comm]

/-! ## What is changed -/

/-- A bitstream that is saved with its summary changes two places and nothing else: those that the
path and the path of the summary lead to. These paths have the same directory and the same stem, and
the ending of the second is that of summaries. Unless the path has this ending itself, the places
are different and the path leads to a file with the bytes of the bitstream. The other always leads
to the summary. -/
theorem save_with_report (h : bitstream.save disk path true = (after, .ok ())) :
    ∃ directory stem ending file summary,
      Path.Parts path directory stem ending ∧
      Path.Parts (reportPath path) directory stem ".rpt".toList ∧
      disk.locate path (Path.names path) = .ok file ∧
      disk.locate (reportPath path) (Path.names (reportPath path)) = .ok summary ∧
      (summary = file ↔ ending = ".rpt".toList) ∧
      (ending ≠ ".rpt".toList → after.read path = .ok bitstream.data) ∧
      after.read (reportPath path) = .ok bitstream.report.toUTF8.data.toList ∧
      (∀ place, place ≠ file → place ≠ summary →
        after.files.lookup place = disk.files.lookup place) ∧
      after.directories = disk.directories := by
  obtain ⟨between, hfirst, hsecond⟩ := exists_of_save h
  obtain ⟨file, hlocate, hfile, rfl⟩ := Disk.exists_of_write hfirst
  obtain ⟨summary, hreport, hsummary, rfl⟩ := Disk.exists_of_write hsecond
  -- The summary is written after the bitstream, but into the same directories.
  have hreport : disk.locate (reportPath path) (Path.names (reportPath path)) = .ok summary :=
    Disk.locate_of_directories_eq (Disk.directories_put disk file bitstream.data).symm hreport
  rw [Disk.isDirectory_put] at hsummary
  obtain ⟨directory, stem, ending, hparts, hother, hsame⟩ :=
    parts_of_locate hlocate hfile hreport hsummary
  refine ⟨directory, stem, ending, file, summary, hparts, hother, hlocate, hreport, hsame,
    fun hending => ?_, Disk.read_put (Disk.locate_put _ hreport) hsummary,
    fun place hplace hplace' => ?_, rfl⟩
  · have hne : file ≠ summary := fun heq => hending (hsame.1 heq.symm)
    rw [Disk.read_put_of_ne (Disk.locate_put _ hlocate) hne, Disk.read_put hlocate hfile]
  · rw [Disk.lookup_put_of_ne hplace', Disk.lookup_put_of_ne hplace]

/-- The summary of a bitstream whose name has two dots replaces an older one and nothing else. -/
theorem save_with_report_dotted :
    let bitstream : Bitstream := { data := [0xAA, 0x99, 0x55, 0x66, 0], part := "p" }
    let disk := Disk.ofFiles [("sub/a.b.rpt", [1]), ("sub/a", [2])]
    let after := (bitstream.save disk "sub/a.b.bit" true).1
    bitstream.save disk "sub/a.b.bit" true = (after, .ok ()) ∧
      after.read "sub/a.b.bit" = .ok bitstream.data ∧
      after.read "sub/a.b.rpt" = .ok bitstream.report.toUTF8.data.toList ∧
      after.files.lookup ["sub", "a"] = some [2] := by
  intro bitstream disk after
  have hsave : bitstream.save disk "sub/a.b.bit" true = (after, .ok ()) :=
    Prod.ext rfl (by decide +kernel)
  obtain ⟨directory, stem, ending, file, summary, hparts, -, hfile, hsummary, -, hdata, hreport,
    hothers, -⟩ := save_with_report hsave
  have hpath : reportPath "sub/a.b.bit" = "sub/a.b.rpt" := by decide +kernel
  rw [hpath] at hreport hsummary
  have hending : ending ≠ ".rpt".toList := by
    rintro rfl
    have hsuffix : ".rpt".toList <:+ "sub/a.b.bit".toList :=
      ⟨directory ++ stem, by rw [hparts.toList_eq, List.append_assoc]⟩
    exact absurd hsuffix (by decide)
  obtain rfl : ["sub", "a.b.bit"] = file :=
    Except.ok.inj (Eq.trans (by decide +kernel) hfile)
  obtain rfl : ["sub", "a.b.rpt"] = summary :=
    Except.ok.inj (Eq.trans (by decide +kernel) hsummary)
  refine ⟨hsave, hdata hending, hreport, ?_⟩
  rw [hothers _ (by decide) (by decide)]
  decide +kernel

/-- The summary of a bitstream under the extension of summaries replaces the bitstream. -/
theorem save_with_report_replaced :
    let bitstream : Bitstream := { data := [0xAA, 0x99, 0x55, 0x66, 0], part := "p" }
    let after := (bitstream.save {} "x.rpt" true).1
    bitstream.save {} "x.rpt" true = (after, .ok ()) ∧
      after.read "x.rpt" = .ok bitstream.report.toUTF8.data.toList ∧
      after.read "x.rpt" ≠ .ok bitstream.data := by
  refine ⟨Prod.ext rfl (by decide +kernel), by decide +kernel, by decide +kernel⟩

end Bitstream

end ConfigStream
