import BrowserScript.Dom.Basic
import BrowserScript.Html.Token

/-!
Documents from markup. New nodes go below the innermost open element. An end tag closes up to the
nearest open element of its name and is passed over if there is none; the element that receives
the markup is never closed.
-/

namespace BrowserScript.Dom

/-- Markup being added below a node: the document so far and the open elements, innermost
first. -/
structure Graft where
  dom : Dom
  opened : List NodeId := []

namespace Graft

def parent (base : NodeId) (g : Graft) : NodeId := g.opened.headD base

/-- The open elements after an end tag. -/
def close (d : Dom) (tag : String) (opened : List NodeId) : List NodeId :=
  match opened.dropWhile fun n => d.tag? n != some tag with
  | [] => opened
  | _ :: outer => outer

def add (base : NodeId) (g : Graft) (t : Html.Token) : Graft :=
  match t with
  | .text cs => { g with dom := g.dom.createText (g.parent base) (String.ofList cs) }
  | .stop tag => { g with opened := close g.dom (String.ofList tag) g.opened }
  | .start tag attributes body =>
    let id := g.dom.size
    let dom := g.dom.createElement (g.parent base) (String.ofList tag)
      (attributes.map fun (name, value) => (String.ofList name, String.ofList value))
    match body with
    | .opened => ⟨dom, id :: g.opened⟩
    | .none => { g with dom }
    | .text [] => { g with dom }
    | .text cs => { g with dom := dom.createText id (String.ofList cs) }

end Graft

/-- Add the nodes of a markup text below a node. -/
def addMarkup (d : Dom) (base : NodeId) (markup : String) : Dom :=
  ((Html.tokens markup.toList).foldl (Graft.add base) ⟨d, []⟩).dom

def ofMarkup (markup : String) : Dom := empty.addMarkup root markup

end BrowserScript.Dom
