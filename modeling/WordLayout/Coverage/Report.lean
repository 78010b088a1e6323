import WordLayout.Coverage
import WordLayout.Terminal.Table

namespace WordLayout.Coverage

def laneSuffix : Option Nat → String
  | none => ""
  | some lane => "." ++ (["x", "y", "z", "w"].getD lane "")

def describePiece (fields : List Field) (p : Piece) : String :=
  let name := ((fields[p.field]?).map (·.name)).getD "" ++ laneSuffix p.lane
  let bits := "[" ++ toString p.shift.toNat ++ ":" ++ toString (p.shift + p.size * 8).toNat ++ "]"
  match p.kind with
  | .ref => name ++ bits ++ " ref"
  | .nested => name ++ " nested"
  | .scalar | .lane => name ++ bits

def describePieces (fields : List Field) : List Piece → String
  | [] => "-"
  | ps => ", ".intercalate (ps.map (describePiece fields))

def structTable (fields : List Field) (size : UInt32) : Terminal.Table :=
  let writes := resolve fields size .write
  { headers := ["word", "read", "write"]
    rows := (resolve fields size .read).zipIdx.map fun (g, i) =>
      [toString g.word.toNat, describePieces fields g.pieces,
        describePieces fields ((writes[i]?).map (·.pieces) |>.getD [])] }

def describePayload (m : Module) : Payload → String
  | .empty => "-"
  | .struct offset target => m.nameOf target ++ " @ " ++ toString offset.toNat
  | .unsupported _ reason => Text.expandTabs ("unsupported: " ++ reason)
  | .missing => ""

def unionTable (m : Module) (variants : List Variant) : Terminal.Table :=
  { headers := ["tag", "variant", "payload"]
    rows := variants.zipIdx.map fun (v, tag) =>
      [toString tag, v.name, describePayload m v.payload] }

def title (kind : String) (d : TypeDef) : String :=
  Text.expandTabs (kind ++ " " ++ d.name ++ " (" ++ toString d.size.toNat ++ " bytes)")

def definition (m : Module) (d : TypeDef) : String :=
  match d.body with
  | .struct fields => title "struct" d ++ "\n" ++ (structTable fields d.size).render ++ "\n\n"
  | .union variants => title "union" d ++ "\n" ++ (unionTable m variants).render ++ "\n\n"
  | .missing => "\n"

def report (m : Module) : String := String.join (m.defs.map (definition m))

end WordLayout.Coverage
