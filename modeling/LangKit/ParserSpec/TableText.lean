import LangKit.Lr.Table

/-!
# Tables as text

A table is saved as a text that can be loaded as a module. Entries are grouped by symbol: for each
symbol the states that have an entry, and the entries. The rules follow with their functions.
-/

namespace LangKit.ParserSpec

def tableVersion : String := "3.10"

def actionNumber : Option Lr.Action → String
  | none => "None"
  | some (.shift state) => toString state
  | some (.reduce rule) => toString (-(rule : Int))
  | some .accept => "0"

def groupBySymbol {α : Type} (rows : List (Nat × List (String × α))) :
    List (String × List (Nat × α)) :=
  rows.foldl (fun acc (state, row) =>
    row.foldl (fun acc (symbol, a) =>
      Assoc.put symbol (Assoc.getD symbol acc [] ++ [(state, a)]) acc) acc) []

def groupText {α : Type} (write : α → String) (rows : Array (List (String × α))) : String :=
  let groups := groupBySymbol (rows.toList.zipIdx.map fun (row, state) => (state, row))
  let item := fun (symbol, entries) =>
    let states := String.join (entries.map fun (state, _) => toString state ++ ",")
    let values := String.join (entries.map fun (_, a) => write a ++ ",")
    Text.quoted symbol ++ ":([" ++ states ++ "],[" ++ values ++ "]),"
  "\x7b" ++ String.join (groups.map item) ++ "\x7d\n"

def ruleLine (p : Production) : String :=
  let head := "  (" ++ Text.quoted p.text ++ "," ++ Text.quoted p.head ++ "," ++
    toString p.body.length ++ ","
  match p.action with
  | some name =>
    head ++ Text.quoted name ++ "," ++ Text.quoted p.file ++ "," ++ toString p.line ++ "),\n"
  | none => head ++ "None,None,None),\n"

def tableText (fileName signature : String) (t : Lr.Table) (rules : List Production) : String :=
  "\n# " ++ fileName ++ "\n# This file is automatically generated. Do not edit.\n" ++
  "# pylint: disable=W,C,R\n_tabversion = " ++ Text.quoted tableVersion ++
  "\n\n_lr_method = " ++ Text.quoted t.method.label ++
  "\n\n_lr_signature = " ++ Text.quoted signature ++ "\n    " ++
  "\n_lr_action_items = " ++ groupText actionNumber t.actions ++
  "\n_lr_action = \x7b\x7d\n" ++
  "for _k, _v in _lr_action_items.items():\n" ++
  "   for _x,_y in zip(_v[0],_v[1]):\n" ++
  "      if not _x in _lr_action:  _lr_action[_x] = \x7b\x7d\n" ++
  "      _lr_action[_x][_k] = _y\n" ++
  "del _lr_action_items\n" ++
  "\n_lr_goto_items = " ++ groupText toString t.gotos ++
  "\n_lr_goto = \x7b\x7d\n" ++
  "for _k, _v in _lr_goto_items.items():\n" ++
  "   for _x, _y in zip(_v[0], _v[1]):\n" ++
  "       if not _x in _lr_goto: _lr_goto[_x] = \x7b\x7d\n" ++
  "       _lr_goto[_x][_k] = _y\n" ++
  "del _lr_goto_items\n" ++
  "_lr_productions = [\n" ++ String.join (rules.map ruleLine) ++ "]\n"

end LangKit.ParserSpec
