import BrowserScript.Json.Printer

/-!
Scripts that run in the page. Elements are kept in a registry of the document; a handle is an
epoch times 2^32 plus a place in the registry. The epoch is drawn for each document, so a handle
of another document is found out.
-/

namespace BrowserScript.DevTools.Script

def lines (ls : List String) : String := "\n".intercalate ls

/-- Makes the registry if the document has none. -/
def registry : String := lines [
  "(() => \x7b",
  "  if (!window.__herbie) \x7b",
  "    const epoch = 1 + Math.floor(Math.random() * 0xfffff);",
  "    window.__herbie = \x7b",
  "      epoch,",
  "      refs: [],",
  "      put(el) \x7b",
  "        let i = this.refs.indexOf(el);",
  "        if (i < 0) i = this.refs.push(el) - 1;",
  "        return this.epoch * 4294967296 + i;",
  "      \x7d,",
  "      get(ref) \x7b",
  "        const i = ref % 4294967296;",
  "        const el = (ref - i) / 4294967296 === this.epoch ? this.refs[i] : undefined;",
  "        if (!el) throw new Error(\"herbie:stale:\" + ref);",
  "        return el;",
  "      \x7d,",
  "    \x7d;",
  "  \x7d",
  "  return window.__herbie;",
  "\x7d)()"]

def xpath : String := lines [
  "",
  "  const ctx = a.ctx === null ? document : h.get(a.ctx);",
  "  const snap = document.evaluate(a.expr, ctx, null, XPathResult.ORDERED_NODE_SNAPSHOT_TYPE, null);",
  "  const out = [];",
  "  for (let i = 0; i < snap.snapshotLength; i++) \x7b",
  "    const node = snap.snapshotItem(i);",
  "    if (node.nodeType === Node.ELEMENT_NODE) out.push(h.put(node));",
  "  \x7d",
  "  return out;",
  ""]

def first : String := lines [
  "",
  "  const el = document.querySelector(a.sel);",
  "  return el ? h.put(el) : null;",
  ""]

def all : String := "return Array.from(document.querySelectorAll(a.sel), (el) => h.put(el));"

def byId : String := lines [
  "",
  "  const el = document.getElementById(a.id);",
  "  return el ? h.put(el) : null;",
  ""]

def tag : String := "return h.get(a.el).tagName.toLowerCase();"

def text : String := "return h.get(a.el).textContent || '';"

def innerText : String := "return h.get(a.el).innerText || '';"

def attributeOf : String := "return h.get(a.el).getAttribute(a.name);"

/-- Values that are no truth values, numbers or texts become texts. -/
def property : String := lines [
  "",
  "  const v = h.get(a.el)[a.name];",
  "  if (v === undefined) return null;",
  "  if (typeof v === \"boolean\" || typeof v === \"number\" || typeof v === \"string\") return v;",
  "  return String(v);",
  ""]

def setProperty : String := "h.get(a.el)[a.name] = a.value; return null;"

def visibility : String := lines [
  "",
  "  const el = h.get(a.el);",
  "  const style = getComputedStyle(el);",
  "  const rect = el.getBoundingClientRect();",
  "  return \x7b",
  "    display: style.display || \"\",",
  "    visibility: style.visibility || \"\",",
  "    opacity: parseFloat(style.opacity || \"1\"),",
  "    width: rect.width,",
  "    height: rect.height,",
  "    hiddenClass: el.closest(\".hidden\") !== null,",
  "  \x7d;",
  ""]

def isConnected : String := "return h.get(a.el).isConnected;"

def dispatch : String := lines [
  "",
  "  const target = a.el === null ? document : h.get(a.el);",
  "  const e = a.event;",
  "  const init = \x7b bubbles: e.bubbles, cancelable: e.cancelable \x7d;",
  "  if (e.button !== undefined) init.button = e.button;",
  "  if (e.key !== undefined) init.key = e.key;",
  "  if (e.keyCode !== undefined) init.keyCode = e.keyCode;",
  "  const Ctor = window[a.interface] || Event;",
  "  target.dispatchEvent(new Ctor(e.kind, init));",
  "  return null;",
  ""]

def focus : String := "h.get(a.el).focus(); return null;"

def blur : String := "h.get(a.el).blur(); return null;"

/-- Run a body with the registry as `h` and the arguments as `a`. -/
def invoke (body : String) (arguments : Json) : String :=
  "((h, a) => \x7b " ++ body ++ " \x7d)(" ++ registry ++ ", " ++ arguments.canonical.compact ++ ")"

end BrowserScript.DevTools.Script
