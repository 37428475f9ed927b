import ParseTrace.Command
import ParseTrace.Proofs.Json.Record
import ParseTrace.Proofs.Script.Run

/-!
Building a script, printing its tree as JSON and rebuilding it from there. The printed text is
read back as the description it came from, and rebuilding that with the session of a build gives
the very arena of the build, whatever session the printed one was built under.
-/

namespace ParseTrace

theorem Script.decode_toUTF8 (text : String) : decode text.toUTF8 = .ok text := by
  have read : String.fromUTF8? text.toUTF8 = some text := by
    rw [String.toUTF8_eq_toByteArray, String.fromUTF8?, dif_pos text.isValidUTF8]
    rfl
  rw [decode, read]

theorem Tree.ofJson_record {t : Tree} {d : Description} (described : t.describe = some d)
    (bounded : ∀ e ∈ t.entries, e.arity < UInt64.size) (words : Wording) :
    Description.ofJson words t.record = .ok d := by
  have text : t.record = String.ofList ([] ++ (d.toJson.toList ++ ['\n'])) := by
    simp [record, described, String.ofList_append]
  rw [text]
  exact Description.ofJson_toJson (fun e he => bounded e (mem_entries_of_describe described he))
    (by simp [Json.isSpace]) words

namespace Script

variable {script : Script} {s : Session} {t : Tree}

theorem rebuild_run (done : (script.run s).1 = .ok t) :
    ∃ d, t.describe = some d ∧ (d.rebuild s).1 = .ok t := by
  obtain ⟨root, f, s', marked, arena, path⟩ := exists_stacked_of_run done
  have h := Tree.Arborescent.empty.becomes path
  have numbered := (Tree.Numbered.empty s).becomes path
  obtain ⟨d, u, described, built, -, reordered⟩ :=
    h.rebuild_describe marked arena.unfolds arena.roots s
  have same := reordered.eq_renamed h arena marked numbered rfl
  -- the file that rebuilding gives to the nodes is the one that they have
  have named : t.nodes.map (fun n => { n with fileName := s.fileName }) = t.nodes := by
    apply Array.ext_getElem?
    intro i
    rw [Array.getElem?_map]
    cases hn : t.nodes[i]? with
    | none => rfl
    | some n => rw [Option.map_some, ← (numbered.node hn).2]
  exact ⟨d, described, by rw [built, same, named]⟩

/-- The record of a run is rebuilt as the tree of a run under any other session. -/
theorem rebuild_record (words : Wording) (done : (script.run s).1 = .ok t) (s' : Session) :
    ∃ d u, Description.ofJson words t.record = .ok d ∧ (d.rebuild s').1 = .ok u ∧
      (script.run s').1 = .ok u := by
  have agree := script.run_agree s s'
  rw [done] at agree
  cases done' : (script.run s').1 with
  | error failure =>
    rw [done'] at agree
    cases agree
  | ok u =>
    rw [done'] at agree
    cases agree with
    | ok same =>
      obtain ⟨_, _, _, -, -, path⟩ := exists_stacked_of_run done
      obtain ⟨_, _, _, -, -, path'⟩ := exists_stacked_of_run done'
      obtain ⟨d, described, built⟩ := rebuild_run done'
      have described₀ := same.describe (Tree.Arborescent.empty.becomes path)
        (Tree.Arborescent.empty.becomes path')
      refine ⟨d, u, ?_, built, rfl⟩
      exact Tree.ofJson_record (described₀.trans described) (arity_lt_of_run done) words

end Script

theorem Command.status_built {format : OutputFormat} {result : Except Failure Tree} :
    (built format result).status = 0 ↔ ∃ t, result = .ok t := by
  cases result <;> simp [built]

section Requests

variable {words : Wording} {find : String → Except ReadFault FileTree}
  {env : String → Option String} {path : String} {format : OutputFormat} {name : Option String} {args : List String} {t : Tree}

theorem respond_build {script : Script}
    (asked : Request.parse args = some (.run (.build path format name)))
    (loaded : Script.load words path ((find path).bind FileTree.contents) = .ok script)
    (done : (script.run { fileName := name.getD script.fileName }).1 = .ok t) :
    respond words find env args = { status := 0, printed := t.render format } := by
  have result : respond words find env args =
      Command.built format (script.run { fileName := name.getD script.fileName }).1 := by
    simp only [respond, asked, Command.path, Command.execute, loaded]
    rfl
  rw [result, done, Command.built]

theorem respond_rebuild {text : String} {d : Description}
    (asked : Request.parse args = some (.run (.rebuild path format name)))
    (found : find path = .ok (.file (.ok text.toUTF8))) (read : Description.ofJson words text = .ok d)
    (done : (d.rebuild { fileName := name.getD path }).1 = .ok t) :
    respond words find env args = { status := 0, printed := t.render format } := by
  have decoded : ((find path).bind FileTree.contents).bind Script.decode = .ok text := by
    rw [found]
    exact Script.decode_toUTF8 text
  have result : respond words find env args =
      Command.built format (d.rebuild { fileName := name.getD path }).1 := by
    simp only [respond, asked, Command.path, Command.execute, decoded, Except.mapError]
    change Command.built format ((Description.ofJson words text).bind fun d => _) = _
    rw [read]
    rfl
  rw [result, done, Command.built]

theorem exists_script_of_build
    (asked : Request.parse args = some (.run (.build path format name)))
    (processed : (respond words find env args).status = 0) :
    ∃ script, Script.load words path ((find path).bind FileTree.contents) = .ok script ∧
      ∀ s : Session, ∃ t, (script.run s).1 = .ok t := by
  simp only [respond, asked, Command.path, Command.execute, Command.status_built] at processed
  obtain ⟨t, done⟩ := processed
  cases loaded : Script.load words path ((find path).bind FileTree.contents) with
  | error failure =>
    rw [loaded] at done
    cases done
  | ok script =>
    rw [loaded] at done
    refine ⟨script, rfl, fun s => ?_⟩
    obtain ⟨d, u, -, -, run⟩ := Script.rebuild_record words done s
    exact ⟨u, run⟩

/-- What a build of a script prints as JSON is rebuilt, from a file that holds it, as what a
build of the script under that file name prints, in each format. -/
theorem respond_rebuild_json {find' : String → Except ReadFault FileTree}
    {env' : String → Option String} {copy file : String} {format₀ : OutputFormat}
    {name₀ : Option String} {given json built rebuilt : List String}
    (hgiven : Request.parse given = some (.run (.build path format₀ name₀)))
    (hjson : Request.parse json = some (.run (.build path .json name)))
    (hbuilt : Request.parse built = some (.run (.build path format (some file))))
    (hrebuilt : Request.parse rebuilt = some (.run (.rebuild copy format (some file))))
    (processed : (respond words find env given).status = 0)
    (written : find' copy = .ok (.file (.ok (respond words find env json).printed.toUTF8))) :
    (respond words find env json).status = 0 ∧ (respond words find env built).status = 0 ∧
      respond words find' env' rebuilt = respond words find env built := by
  obtain ⟨script, loaded, runs⟩ := exists_script_of_build hgiven processed
  obtain ⟨t, done⟩ := runs { fileName := name.getD script.fileName }
  obtain ⟨d, u, read, again, run⟩ := Script.rebuild_record words done { fileName := file }
  have printed : respond words find env json = { status := 0, printed := t.record } :=
    respond_build hjson loaded done
  have direct : respond words find env built = { status := 0, printed := u.render format } :=
    respond_build hbuilt loaded run
  rw [printed] at written
  have copied : respond words find' env' rebuilt = { status := 0, printed := u.render format } :=
    respond_rebuild hrebuilt written read again
  rw [printed, direct, copied]
  exact ⟨rfl, rfl, rfl⟩

theorem respond_rebuild_json_leaf :
    let find (_ : String) : Except ReadFault FileTree := .ok (.file (.ok
      "terminal 0 ID\nnonterminal 1 e\nrule e 1\nshift ID \"x\" 1\nreduce 0\naccept\n".toUTF8))
    let env (_ : String) : Option String := none
    let json := respond default find env ["build", "--format=json", "s.trace"]
    let find' (_ : String) : Except ReadFault FileTree := .ok (.file (.ok json.printed.toUTF8))
    json.status = 0 ∧
      respond default find' env
          ["rebuild", "--file-name", "copy.php", "--format", "dot", "copy.json"] =
        respond default find env ["build", "--format", "dot", "s.trace", "--file-name=copy.php"] := by
  intro find env json find'
  have printing : Request.parse ["build", "--format=json", "s.trace"] =
      some (.run (.build "s.trace" .json none)) := by decide +kernel
  have building : Request.parse ["build", "--format", "dot", "s.trace", "--file-name=copy.php"] =
      some (.run (.build "s.trace" .dot (some "copy.php"))) := by decide +kernel
  have rebuilding :
      Request.parse ["rebuild", "--file-name", "copy.php", "--format", "dot", "copy.json"] =
        some (.run (.rebuild "copy.json" .dot (some "copy.php"))) := by decide +kernel
  have processed : json.status = 0 := by decide +kernel
  have written : find' "copy.json" = .ok (.file (.ok json.printed.toUTF8)) := rfl
  obtain ⟨status, -, same⟩ :=
    respond_rebuild_json printing printing building rebuilding processed written
  exact ⟨status, same⟩

end Requests

end ParseTrace
